/-
Extraction entry by entry: files, links and directories that go to the sink, the driver that reads entries from an archive
one after the other, and the one that takes them from a stream in their order.
-/
import Squallz.Extract.Sink

namespace Squallz.Extract

open Squallz.Api Squallz.System

/-- An entry of a stream and its data. -/
structure StreamEntry where
  entry : EntryMeta
  data : Stream

section

variable {W H I : Type} (env : Environment W H I) (opts : ExtractOptions)

/-! ## Counters -/

namespace ExtractReport

def addSkipped (report : ExtractReport) : ExtractReport := { report with skipped := saturatingAdd report.skipped 1 }

def addDirectory (report : ExtractReport) : ExtractReport :=
  { report with directories := saturatingAdd report.directories 1 }

def addFailed (report : ExtractReport) : ExtractReport := { report with failed := saturatingAdd report.failed 1 }

/-- `record_materialization`. -/
def addMaterialized (materialization : Materialization) (outputBytes : UInt64) (report : ExtractReport) : ExtractReport :=
  let report := match materialization with
    | .created => { report with created := saturatingAdd report.created 1 }
    | .replaced => { report with replaced := saturatingAdd report.replaced 1 }
    | .renamed => { report with renamed := saturatingAdd report.renamed 1 }
  { report with outputBytes := saturatingAdd report.outputBytes outputBytes }

end ExtractReport

/-- A change of the report. -/
def modifyReport (change : ExtractReport → ExtractReport) : Run W H I Unit :=
  modifySink fun sink => { sink with report := change sink.report }

/-- `record_materialized_file`. -/
def addMaterializedFile (entry : EntryMeta) (path : DestPath) (sink : ExtractSink H I) : ExtractSink H I :=
  match normalizeArchivePathRaw entry.path.raw with
  | some key => { sink with materializedFiles := (key, path) :: sink.materializedFiles.filter (·.1 ≠ key) }
  | none => sink

/-! ## Admission -/

/-- `ExtractSink::new`. -/
def ExtractSink.new (dest : DestPath) (total : UInt64) : Run W H I Unit := do
  call (env.createDirAll dest)
  let canonicalDest ← call (env.canonicalize dest)
  modifySink fun _ => ⟨dest, canonicalDest, .new opts.limits, [], [], [], none, 0, total, .empty dest⟩

/-- A charge to the limits. -/
def charge {α : Type} (f : LimitsAccountant → Except FormatError α × LimitsAccountant) : Run W H I α := do
  let sink ← getSink
  modifySink fun sink => { sink with accountant := (f sink.accountant).2 }
  match (f sink.accountant).1 with
  | .ok a => pure a
  | .error e => .fail (.raised e)

/-- `admit`. -/
def admitEntry (entry : EntryMeta) : Run W H I DestPath := do
  checkpoint env
  let rel ← (.ofExcept (sanitizeEntryPath entry.path) : Run W H I DestPath)
  charge fun accountant => accountant.checkEntry entry
  let sink ← getSink
  if crossesCreatedSymlink rel sink.createdSymlinks then .fail (.raised (.symlinkBreakout entry.path.display))
  else do
    modifyReport fun report => { report with selectedEntries := saturatingAdd report.selectedEntries 1 }
    pure rel

def reportProgress (path : EntryPath) (entry : Option (UInt64 × UInt64)) : Run W H I Unit := do
  let sink ← getSink
  report ⟨sink.done, sink.total, path, entry⟩

def addDone (n : UInt64) : Run W H I Unit := modifySink fun sink => { sink with done := sink.done + n }

def fileTarget (entry : EntryMeta) : Run W H I (Option DestPath) := do
  let rel ← admitEntry env entry
  let sink ← getSink
  reportProgress entry.path (some (0, entry.size))
  match ← resolveConflictPath env opts (sink.dest ++ rel) entry with
  | none => do
    log (.passedOver entry.size)
    addDone entry.size
    modifyReport .addSkipped
    reportProgress entry.path (some (entry.size, entry.size))
    pure none
  | some resolved => do
    ensureParentInside env sink.canonicalDest resolved.path
    modifySink fun sink =>
      { sink with pendingOutputs := (resolved.path, resolved) :: sink.pendingOutputs.filter (·.1 ≠ resolved.path) }
    pure (some resolved.path)

/-- `abandon_file_target`. -/
def abandonFileTarget (outPath : DestPath) : Run W H I Unit :=
  modifySink fun sink => { sink with pendingOutputs := sink.pendingOutputs.filter (·.1 ≠ outPath) }

def takePendingOutput (outPath : DestPath) : Run W H I ResolvedOutput := do
  let sink ← getSink
  abandonFileTarget outPath
  pure ((sink.pendingOutputs.lookup outPath).getD ⟨outPath, false, .created⟩)

def recordUnmaterialized (entry : EntryMeta) : Run W H I Unit := do
  let _ ← admitEntry env entry
  modifyReport .addSkipped

def recordProblem : Run W H I Unit := modifyReport .addFailed

/-! ## Files -/

/-- The loop of `write_file`: the bytes that were written, or the error of a read. -/
def copyChunks (entry : EntryMeta) (staged : DestPath) (handle : H) (entryStart : UInt64) :
    UInt64 → Stream → Run W H I (Except FormatError UInt64)
  | written, [] => do
    checkpoint env
    pure (.ok written)
  | _, .error e :: _ => do
    checkpoint env
    pure (.error e)
  | written, .ok chunk :: rest => do
    checkpoint env
    if chunk.bytes = [] then pure (.ok written)
    else do
      let written ← charge fun accountant => accountant.addEntryOutputBytes entry written chunk.size
      call (env.writeAll handle chunk.bytes)
      log (.wrote staged chunk.bytes)
      addDone chunk.size
      let sink ← getSink
      reportProgress entry.path (some (min (saturatingSub sink.done entryStart) entry.size, entry.size))
      copyChunks entry staged handle entryStart written rest

/-- What `write_file` and `write_file_best_effort` share: the bytes that were published, or none where a failed read may be
passed over. -/
def writeStaged (tolerant : Bool) (entry : EntryMeta) (outPath : DestPath) (data : Stream) :
    Run W H I (Option (ResolvedOutput × UInt64)) := do
  let sink ← getSink
  let resolved ← takePendingOutput outPath
  let (staged, handle) ← createPending env outPath (some entry)
  let written ← onFailure (discard env staged) do
    let _ ← (.ofExcept (streamBufferSize opts copyChunk) : Run W H I Nat)
    match ← copyChunks env entry staged handle sink.done 0 data with
    | .error e =>
      if tolerant && bestEffortRecoverable e then do
        recordProblem
        pure none
      else .fail (.raised e)
    | .ok written => do
      checkpoint env
      restoreFile env opts handle entry
      commit env staged outPath resolved.replaceExisting .file
      pure (some written)
  match written with
  | none => do
    discard env staged
    pure none
  | some written => pure (some (resolved, written))

/-- `write_file` and `write_file_best_effort`: whether the file was written. -/
def writeFile (tolerant : Bool) (entry : EntryMeta) (outPath : DestPath) (data : Stream) : Run W H I Bool := do
  match ← writeStaged env opts tolerant entry outPath data with
  | none => pure false
  | some (resolved, written) => do
    modifySink (addMaterializedFile entry outPath)
    modifyReport (.addMaterialized resolved.materialization written)
    pure true

/-! ## Links -/

def validatedMaterializedSource (source : DestPath) : Run W H I (Option DestPath) := do
  match ← tryCall (env.symlinkMetadata source) with
  | .error error => if error.kind = .notFound then pure none else .fail (.raised (.ofIo error))
  | .ok .symlink => .fail (.raised (.symlinkBreakout (displayPath source)))
  | .ok .file => do
    let canonical ← call (env.canonicalize source)
    let sink ← getSink
    if startsWith canonical sink.canonicalDest then pure (some canonical)
    else .fail (.raised (.symlinkBreakout (displayPath source)))
  | .ok _ => pure none

/-- A hard link that is staged and published. -/
def publishHardLink (source outPath : DestPath) (replaceExisting : Bool) : Run W H I Unit := do
  let staged ← hardLinkPending env source outPath
  onFailure (discard env staged) do
    checkpoint env
    commit env staged outPath replaceExisting .file

def writeHardLink (entry : EntryMeta) (source outPath : DestPath) : Run W H I Unit := do
  let resolved ← takePendingOutput outPath
  match ← validatedMaterializedSource env source with
  | none => .fail (.raised (.other "materialized hardlink source is unavailable"))
  | some source => do
    publishHardLink env source outPath resolved.replaceExisting
    modifySink (addMaterializedFile entry outPath)
    modifyReport (.addMaterialized resolved.materialization 0)

/-- The loop that copies a file on the disk: the bytes that were written. -/
def copyFromDisk (entry : EntryMeta) (staged : DestPath) (handle : H) (length : UInt64) :
    UInt64 → Stream → Run W H I UInt64
  | written, [] => do
    checkpoint env
    pure written
  | _, .error e :: _ => do
    checkpoint env
    .fail (.raised e)
  | written, .ok chunk :: rest => do
    checkpoint env
    if chunk.bytes = [] then pure written
    else do
      charge fun accountant => accountant.addOutputBytes chunk.size
      call (env.writeAll handle chunk.bytes)
      log (.wrote staged chunk.bytes)
      let written := saturatingAdd written chunk.size
      modifySink fun sink => { sink with done := saturatingAdd sink.done chunk.size }
      reportProgress entry.path (some (written, length))
      copyFromDisk entry staged handle length written rest

/-- A copy of a file on the disk that is staged and published. -/
def publishCopy (entry : EntryMeta) (source outPath : DestPath) (length : UInt64) (modified : Option SystemTime)
    (replaceExisting : Bool) : Run W H I UInt64 := do
  let data ← call (env.openFile source)
  let (staged, handle) ← createPending env outPath none
  onFailure (discard env staged) do
    let _ ← (.ofExcept (streamBufferSize opts copyChunk) : Run W H I Nat)
    let written ← copyFromDisk env entry staged handle length 0 data
    checkpoint env
    restoreFile env opts handle { entry with modified := entry.modified.or modified }
    commit env staged outPath replaceExisting .file
    pure written

def linkFromDisk (entry : EntryMeta) (outTarget : DestPath) (link : List UInt8) (hard : Bool) : Run W H I Unit := do
  let resolved := if hard then normalizeArchivePathRaw link else resolveTargetPathRaw entry.path.raw link
  let sink ← getSink
  match resolved.bind fun key => sink.materializedFiles.lookup key with
  | none => modifyReport .addSkipped
  | some source =>
    match ← validatedMaterializedSource env source with
    | none => modifyReport .addSkipped
    | some source => do
      let (length, modified) ← call (env.metadata source)
      match ← resolveConflictPath env opts outTarget entry with
      | none => modifyReport .addSkipped
      | some resolved => do
        ensureParentInside env sink.canonicalDest resolved.path
        let outputBytes ← (if hard then do
            publishHardLink env source resolved.path resolved.replaceExisting
            pure 0
          else publishCopy env opts entry source resolved.path length modified resolved.replaceExisting :
          Run W H I UInt64)
        modifySink (addMaterializedFile entry resolved.path)
        modifyReport (.addMaterialized resolved.materialization outputBytes)
        reportProgress entry.path none

def createSymlinkEntry (canonicalDest target : DestPath) (entry : EntryMeta) (link : List UInt8) :
    Run W H I (Option Materialization) := do
  match ← resolveConflictPath env opts target entry with
  | none => pure none
  | some resolved => do
    checkpoint env
    ensureParentInside env canonicalDest resolved.path
    let (staged, ()) ← createPendingValue env resolved.path (env.symlink (fromUtf8Lossy link)) tempPathAttempts
    onFailure (discard env staged) do
      restoreSymlink env staged resolved.path entry.modified
      checkpoint env
      commit env staged resolved.path resolved.replaceExisting .symbolicLink
    pure (some resolved.materialization)

/-! ## Entries without data -/

variable [DecidableEq I]

def writeDirectory (entry : EntryMeta) (rel : DestPath) : Run W H I Unit := do
  let sink ← getSink
  ensureDirectoryInside env sink.canonicalDest (sink.dest ++ rel)
  if entry.modified.isSome || (opts.restorePermissions && entry.unixMode.isSome) then do
    let directories ← (match sink.directories with
      | some directories => pure directories
      | none => DeferredDirectories.new env sink.canonicalDest : Run W H I (DeferredDirectories H I))
    modifySink fun sink => { sink with directories := some directories }
    let directories ← directories.record env rel entry
    modifySink fun sink => { sink with directories := some directories }
  modifyReport .addDirectory

def writeMetaEntry (entry : EntryMeta) : Run W H I Unit := do
  let rel ← admitEntry env entry
  let sink ← getSink
  let target := sink.dest ++ rel
  reportProgress entry.path none
  match entry.entryType with
  | .dir => writeDirectory env opts entry rel
  | .symlink link =>
    match opts.symlinks with
    | .skip => modifyReport .addSkipped
    | .follow => linkFromDisk env opts entry target link false
    | .preserve => do
      match ← createSymlinkEntry env opts sink.canonicalDest target entry link with
      | some materialization => do
        modifySink fun sink => { sink with createdSymlinks := rel :: sink.createdSymlinks }
        modifyReport (.addMaterialized materialization 0)
      | none => modifyReport .addSkipped
  | .hardlink link => linkFromDisk env opts entry target link true
  | .other | .file => modifyReport .addSkipped

def finish : Run W H I ExtractReport := do
  checkpoint env
  let sink ← getSink
  match sink.directories with
  | some directories => directories.finish env opts
  | none => pure ()
  checkpoint env
  let total := if sink.total = 0 then sink.done else sink.total
  report ⟨total, total, .fromUtf8 "", none⟩
  pure sink.report

/-! ## The driver that reads entries from an archive -/

/-- `empty_extract_report`. -/
def emptyExtractReport (dest : DestPath) : Run W H I ExtractReport := do
  report ⟨0, 0, .fromUtf8 "", none⟩
  pure (.empty dest)

/-- Reading an entry into a file: whether the file was written. -/
def readIntoFile (source : EntryPath) (entry : EntryMeta) (outPath : DestPath) : Run W H I Bool := do
  match ← tryCall (env.openEntry source) with
  | .error e =>
    if opts.bestEffort && bestEffortRecoverable e then do
      abandonFileTarget outPath
      recordProblem
      pure false
    else .fail (.raised e)
  | .ok data => do
    let wrote ← writeFile env opts opts.bestEffort entry outPath data
    callRes .raised env.closeEntry
    pure wrote

/-- The entry that `materialize_link` writes: the path of the link, with the content and the mode of its target. -/
def materializedMeta (link target : EntryMeta) : EntryMeta where
  path := link.path
  entryType := .file
  size := target.size
  compressedSize := target.compressedSize
  modified := match link.entryType with
    | .hardlink _ => target.modified
    | _ => link.modified.or target.modified
  unixMode := target.unixMode
  crc32 := target.crc32
  encrypted := target.encrypted

def materializeLink (link target : EntryMeta) : Run W H I Unit := do
  match ← fileTarget env opts (materializedMeta link target) with
  | some outPath => do
    let _ ← readIntoFile env opts target.path (materializedMeta link target) outPath
    pure ()
  | none => pure ()

/-- The out paths of the files that have been extracted. -/
abbrev Extracted := List (List UInt8 × DestPath)

/-- One entry of the loop of `extract_entries`. -/
def extractEntry (metas : List EntryMeta) (entry : EntryMeta) (extracted : Extracted) : Run W H I Extracted := do
  let materializing (target : EntryMeta) : Run W H I Extracted := do
    materializeLink env opts entry target
    pure extracted
  match entry.entryType with
  | .file =>
    match ← fileTarget env opts entry with
    | none => pure extracted
    | some outPath => do
      let wrote ← readIntoFile env opts entry.path entry outPath
      pure (if wrote then (entry.path.raw, outPath) :: extracted.filter (·.1 ≠ entry.path.raw) else extracted)
  | .hardlink _ =>
    match resolveToFile metas entry with
    | none => do
      recordUnmaterialized env entry
      pure extracted
    | some target =>
      match extracted.lookup target.path.raw with
      | some source =>
        match ← fileTarget env opts entry with
        | some outPath => do
          writeHardLink env entry source outPath
          pure extracted
        | none => pure extracted
      | none => materializing target
  | .symlink _ =>
    if opts.symlinks = .follow then
      match resolveToFile metas entry with
      | some target => materializing target
      | none => do
        recordUnmaterialized env entry
        pure extracted
    else do
      writeMetaEntry env opts entry
      pure extracted
  | _ => do
    writeMetaEntry env opts entry
    pure extracted

/-- The loop of `extract_entries`. -/
def extractAll (metas : List EntryMeta) : List EntryMeta → Extracted → Run W H I Unit
  | [], _ => pure ()
  | entry :: rest, extracted => do
    let extracted ← extractEntry env opts metas entry extracted
    extractAll metas rest extracted

/-- Whether an entry is selected by its raw name. -/
def selectedBy (selection : Option (List EntryPath)) (entry : EntryMeta) : Bool :=
  match selection with
  | none => true
  | some paths => (paths.map (·.raw)).contains entry.path.raw

/-- The sum of the declared sizes of the selected files. -/
def totalSize (metas : List EntryMeta) : UInt64 :=
  ((metas.filter fun entry => entry.entryType = .file).map (·.size)).sum

/-- `extract_entries`. -/
def extractEntries (entries : Res (List EntryMeta)) (dest : DestPath) (selection : Option (List EntryPath)) :
    Run W H I ExtractReport := do
  if selection = some [] then emptyExtractReport dest
  else do
    let metas ← (.ofExcept entries : Run W H I (List EntryMeta))
    let selected := metas.filter (selectedBy selection)
    ExtractSink.new env opts dest (totalSize selected)
    extractAll env opts metas selected []
    finish env opts

/-! ## The driver of a stream -/

/-- One entry of the loop of a stream's `extract`. -/
def extractStreamEntry (item : StreamEntry) : Run W H I Unit := do
  match item.entry.entryType with
  | .file =>
    match ← fileTarget env opts item.entry with
    | some outPath => do
      let _ ← writeFile env opts opts.bestEffort item.entry outPath item.data
      pure ()
    | none => pure ()
  | _ => writeMetaEntry env opts item.entry

/-- The loop of a stream's `extract`. -/
def extractStreamAll (selection : Option (List EntryPath)) : List (Res StreamEntry) → Run W H I Unit
  | [] => pure ()
  | item :: rest => do
    let item ← (.ofExcept item : Run W H I StreamEntry)
    if selectedBy selection item.entry then extractStreamEntry env opts item
    extractStreamAll selection rest

/-- The `extract` of a stream, which is given the total and validates the end of the stream. -/
def extractStream (items : List (Res StreamEntry)) (total : UInt64) (validateStreamEnd : Call W FormatError Unit)
    (dest : DestPath) (selection : Option (List EntryPath)) : Run W H I ExtractReport := do
  if selection = some [] then emptyExtractReport dest
  else do
    ExtractSink.new env opts dest total
    extractStreamAll env opts selection items
    callRes .raised validateStreamEnd
    finish env opts

end

end Squallz.Extract
