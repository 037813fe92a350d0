import Sentora.Library.Adapters

/-!
# Runs of a source

`SourceRunner` (`domains/library/source_runner.py`): the pipeline from what an
adapter yields to the library, with its checkpoints and the record of the run.
The lock of the source is held, so that no other run of it changes the checkpoint.
-/

namespace Sentora.Library

open Lib Process

inductive RunStatus where
  | running | completed | failed | cancelled
deriving DecidableEq

structure IngestionRun where
  id : String
  source : SourceType
  status : RunStatus := .running
  entriesCreated : Nat := 0
  entriesUpdated : Nat := 0
  entriesSkipped : Nat := 0
  errors : List String := []
deriving DecidableEq

structure Checkpoint where
  ingestionRunId : String
  synced : Nat
  entriesCreated : Nat
  entriesUpdated : Nat
  entriesSkipped : Nat
  errors : List String
  config : Config
  adapterState : Option AdapterState
  status : RunStatus
deriving DecidableEq

/-- The library, the checkpoint of the source and the records of its runs. -/
structure IngestState where
  library : LibraryStore
  checkpoint : Option Checkpoint
  runs : Collection IngestionRun.id

inductive RunnerOp where
  | drawId
  | entry (op : SourceOp)
  | cleanUp
  | insertRun
  | updateRun
  | saveCheckpoint
  | clearCheckpoint
deriving DecidableEq

/-- What the runner is given: the texts, the ids that the driver draws, the id of the
run, and the text of a refused insertion. -/
structure Runner where
  text : Text
  source : SourceType
  newId : LibraryStore → String
  runId : String
  duplicateKey : String := ""

/-- The database fails behind some steps of an entry. -/
structure Fault where
  steps : Nat
  exc : String
deriving DecidableEq

/-- What happens at the entries, by the number of those before: an exception, one
when the checkpoint is saved, and a cancellation that was asked for. -/
structure Conditions where
  fault : Nat → Option Fault := fun _ => none
  saveFails : Nat → Option String := fun _ => none
  cancelled : Nat → Bool := fun _ => false

def checkpointInterval : Nat := 100

def IngestState.setLibrary (library : LibraryStore) (s : IngestState) : IngestState :=
  { s with library }

def IngestState.saveCheckpoint (checkpoint : Checkpoint) (s : IngestState) : IngestState :=
  { s with checkpoint := some checkpoint }

def IngestState.clearCheckpoint (s : IngestState) : IngestState := { s with checkpoint := none }

/-- `insert_ingestion_run` and `update_ingestion_run`. -/
def IngestState.putRun (run : IngestionRun) (s : IngestState) : IngestState :=
  { s with runs := s.runs.replaceOne run }

def isStale (source : SourceType) (e : LibraryEntry) : Bool :=
  e.source == source && e.upstreamId.any fun id => "cpe:".toList.isPrefixOf id.toList

def cleanUp (source : SourceType) (s : LibraryStore) : LibraryStore :=
  { s with entries := s.entries.deleteMany (isStale source) }

section Execute

variable (r : Runner) (given : Conditions)

/-- The body of the loop, which catches what the database raises. -/
def tryIngest (n : Nat) (raw : RawEntry) :
    Process IngestState RunnerOp (Except String Ingested) := do
  let id ← Process.read .drawId fun s => r.newId s.library
  let entry := ingest r.text r.source id raw
  match given.fault n with
  | some fault => do
    (entry.upTo fault.steps).zoom IngestState.library IngestState.setLibrary .entry
    pure (.error fault.exc)
  | none => do
    let result ← entry.zoom IngestState.library IngestState.setLibrary .entry
    match result with
    | .skipped => pure (.error r.duplicateKey)
    | result => pure (.ok result)

def IngestionRun.record (run : IngestionRun) (raw : RawEntry) :
    Except String Ingested → IngestionRun
  | .ok .created => { run with entriesCreated := run.entriesCreated + 1 }
  | .ok _ => { run with entriesUpdated := run.entriesUpdated + 1 }
  | .error exc =>
    { run with
      entriesSkipped := run.entriesSkipped + 1
      errors := run.errors ++ [raw.upstreamId ++ ": " ++ exc] }

def IngestionRun.addError (run : IngestionRun) (exc : String) : IngestionRun :=
  { run with errors := run.errors ++ [exc] }

def tooMany (run : IngestionRun) : Except String Ingested → Bool
  | .ok _ => false
  | .error _ => decide (100 < run.errors.length)

def progressCheckpoint (run : IngestionRun) (totalProcessed : Nat) (config : Config)
    (adapterState : AdapterState) (status : RunStatus) : Checkpoint where
  ingestionRunId := run.id
  synced := totalProcessed
  entriesCreated := run.entriesCreated
  entriesUpdated := run.entriesUpdated
  entriesSkipped := run.entriesSkipped
  errors := run.errors.drop (run.errors.length - 10)
  config := config
  adapterState := some adapterState
  status := status

/-- How the loop ended, the record of the run, and the entries that were reached with
what came of them. -/
structure LoopEnd where
  status : RunStatus
  run : IngestionRun
  reached : List (RawEntry × Except String Ingested)

def LoopEnd.before (raw : RawEntry) (result : Except String Ingested) (e : LoopEnd) : LoopEnd :=
  { e with reached := (raw, result) :: e.reached }

/-- `_finalize_run`. -/
def LoopEnd.finalized (e : LoopEnd) : LoopEnd := { e with run := { e.run with status := e.status } }

/-- The checkpoint and the record after every hundredth entry, or the exception. -/
def saveProgress (config : Config) (run : IngestionRun) (totalProcessed : Nat)
    (state : AdapterState) : Process IngestState RunnerOp (Option String) :=
  if totalProcessed % checkpointInterval = 0 then
    match given.saveFails totalProcessed with
    | some exc => pure (some exc)
    | none => do
      Process.write .saveCheckpoint
        (IngestState.saveCheckpoint (progressCheckpoint run totalProcessed config state .running))
      Process.write .updateRun (IngestState.putRun run)
      pure none
  else pure none

def ingestEach (config : Config) :
    List Yield → Nat → IngestionRun → Process IngestState RunnerOp LoopEnd
  | [], _, run => pure ⟨.completed, run, []⟩
  | y :: rest, n, run => do
    if given.cancelled n then
      Process.write .saveCheckpoint
        (IngestState.saveCheckpoint (progressCheckpoint run n config y.state .cancelled))
      pure ⟨.cancelled, run, []⟩
    else do
      let result ← tryIngest r given n y.raw
      let run := run.record y.raw result
      if tooMany run result then
        pure ⟨.completed, run.addError "... truncated (>100 errors)", [(y.raw, result)]⟩
      else do
        let exc? ← saveProgress given config run (n + 1) y.state
        match exc? with
        | some exc => pure ⟨.failed, run.addError ("Pipeline error: " ++ exc), [(y.raw, result)]⟩
        | none => do
          let e ← ingestEach config rest (n + 1) run
          pure (e.before y.raw result)

theorem run_ingestEach_cancelled {config : Config} {y : Yield} {rest : List Yield} {n : Nat}
    {run : IngestionRun} (hcancel : given.cancelled n = true) (s : IngestState) :
    (ingestEach r given config (y :: rest) n run).run s =
      (s.saveCheckpoint (progressCheckpoint run n config y.state .cancelled),
        ⟨.cancelled, run, []⟩) := by
  rw [ingestEach, if_pos hcancel]
  rfl

theorem run_ingestEach_cons {config : Config} {y : Yield} {rest : List Yield} {n : Nat}
    {run : IngestionRun} {s t : IngestState} {result : Except String Ingested}
    (hcancel : given.cancelled n = false) (hrun : (tryIngest r given n y.raw).run s = (t, result)) :
    (ingestEach r given config (y :: rest) n run).run s =
      if tooMany (run.record y.raw result) result then
        (t, ⟨.completed, (run.record y.raw result).addError "... truncated (>100 errors)",
          [(y.raw, result)]⟩)
      else
        let saved := (saveProgress given config (run.record y.raw result) (n + 1) y.state).run t
        match saved.2 with
        | some exc =>
          (saved.1, ⟨.failed, (run.record y.raw result).addError ("Pipeline error: " ++ exc),
            [(y.raw, result)]⟩)
        | none =>
          let x := (ingestEach r given config rest (n + 1) (run.record y.raw result)).run saved.1
          (x.1, x.2.before y.raw result) := by
  rw [ingestEach, hcancel, if_neg Bool.false_ne_true, run_bind, hrun]
  dsimp only
  split
  · rfl
  · rw [run_bind]
    cases ((saveProgress given config (run.record y.raw result) (n + 1) y.state).run t).2 with
    | some exc => rfl
    | none => exact run_bind ..

def restoreOrCreateRun : Option Checkpoint → Process IngestState RunnerOp IngestionRun
  | some checkpoint =>
    pure {
      id := checkpoint.ingestionRunId
      source := r.source
      entriesCreated := checkpoint.entriesCreated
      entriesUpdated := checkpoint.entriesUpdated
      entriesSkipped := checkpoint.entriesSkipped
      errors := checkpoint.errors }
  | none => do
    let run : IngestionRun := { id := r.runId, source := r.source }
    Process.write .insertRun (IngestState.putRun run)
    pure run

def deleteStale (checkpoint : Option Checkpoint) : Process IngestState RunnerOp Unit :=
  if checkpoint.isNone ∧ r.source = .nistCpe then
    Process.write .cleanUp fun s => s.setLibrary (cleanUp r.source s.library)
  else pure ()

/-- `_execute` over what the adapter yields. -/
def execute (checkpoint : Option Checkpoint) (config : Config) (yields : List Yield) :
    Process IngestState RunnerOp LoopEnd := do
  deleteStale r checkpoint
  let run ← restoreOrCreateRun r checkpoint
  let e ← ingestEach r given config yields ((checkpoint.map Checkpoint.synced).getD 0) run
  Process.write .updateRun (IngestState.putRun e.finalized.run)
  pure e.finalized

/-- `_safe_run`: the checkpoint of a completed run is cleared. -/
def safeRun (checkpoint : Option Checkpoint) (config : Config) (yields : List Yield) :
    Process IngestState RunnerOp LoopEnd := do
  let e ← execute r given checkpoint config yields
  if e.status = .completed then do
    Process.write .clearCheckpoint IngestState.clearCheckpoint
    pure e
  else pure e

end Execute

structure PagedRunner where
  py : PyText
  paged : PagedSource
  pageSize : Nat
  newId : LibraryStore → String
  runId : String
  duplicateKey : String := ""

namespace PagedRunner

variable (r : PagedRunner)

def toRunner : Runner where
  text := r.py.toText
  source := r.paged.source
  newId := r.newId
  runId := r.runId
  duplicateKey := r.duplicateKey

def adapter : Adapter r.paged.Item := r.paged.adapter r.py r.pageSize

def session (given : Conditions) (listing : List r.paged.Item) (fails : Nat → Bool)
    (checkpoint : Option Checkpoint) (config : Config) : Process IngestState RunnerOp LoopEnd :=
  safeRun r.toRunner given checkpoint config
    (r.adapter.fetch config listing fails (checkpoint.bind Checkpoint.adapterState))

end PagedRunner

def cleaned (source : SourceType) (s : LibraryStore) : LibraryStore :=
  if source = .nistCpe then cleanUp source s else s

def startLibrary (source : SourceType) (checkpoint : Option Checkpoint) (s : LibraryStore) :
    LibraryStore :=
  if checkpoint.isNone then cleaned source s else s

def startRun (r : Runner) : Option Checkpoint → IngestionRun
  | some checkpoint =>
    { id := checkpoint.ingestionRunId
      source := r.source
      entriesCreated := checkpoint.entriesCreated
      entriesUpdated := checkpoint.entriesUpdated
      entriesSkipped := checkpoint.entriesSkipped
      errors := checkpoint.errors }
  | none => { id := r.runId, source := r.source }

def syncedOf (checkpoint : Option Checkpoint) : Nat := (checkpoint.map Checkpoint.synced).getD 0

theorem safeRun_loop (r : Runner) (given : Conditions) (checkpoint : Option Checkpoint)
    (config : Config) (yields : List Yield) (s : IngestState) :
    ∃ t : IngestState, t.library = startLibrary r.source checkpoint s.library ∧
      ((safeRun r given checkpoint config yields).run s).1.library =
        ((ingestEach r given config yields (syncedOf checkpoint) (startRun r checkpoint)).run
          t).1.library ∧
      ((safeRun r given checkpoint config yields).run s).2 =
        ((ingestEach r given config yields (syncedOf checkpoint) (startRun r checkpoint)).run
          t).2.finalized := by
  have hstale : ((deleteStale r checkpoint).run s).1.library =
      startLibrary r.source checkpoint s.library := by
    unfold deleteStale startLibrary cleaned
    by_cases hnone : checkpoint.isNone = true
    · by_cases hsource : r.source = .nistCpe
      · rw [if_pos ⟨hnone, hsource⟩, if_pos hnone, if_pos hsource]
        rfl
      · rw [if_neg fun h => hsource h.2, if_pos hnone, if_neg hsource]
        rfl
    · rw [if_neg fun h => hnone h.1, if_neg hnone]
      rfl
  have hrestore : ∃ t : IngestState, t.library = startLibrary r.source checkpoint s.library ∧
      (restoreOrCreateRun r checkpoint).run ((deleteStale r checkpoint).run s).1 =
        (t, startRun r checkpoint) := by
    cases checkpoint with
    | none => exact ⟨((deleteStale r none).run s).1.putRun (startRun r none), hstale, rfl⟩
    | some checkpoint => exact ⟨_, hstale, rfl⟩
  obtain ⟨t, ht, hrestored⟩ := hrestore
  refine ⟨t, ht, ?_⟩
  have hexecute : (execute r given checkpoint config yields).run s =
      let x :=
        (ingestEach r given config yields (syncedOf checkpoint) (startRun r checkpoint)).run t
      (x.1.putRun x.2.finalized.run, x.2.finalized) := by
    unfold execute
    rw [run_bind, run_bind, hrestored]
    exact run_bind ..
  unfold safeRun
  rw [run_bind, hexecute]
  dsimp only
  split
  · exact ⟨rfl, rfl⟩
  · exact ⟨rfl, rfl⟩

/-- The driver never draws the id of an entry that is there. -/
def FreshIds (newId : LibraryStore → String) : Prop :=
  ∀ (s : LibraryStore), ∀ e ∈ s.entries, e.id ≠ newId s

def ingestedAll (r : Runner) (raws : List RawEntry) (s : LibraryStore) : LibraryStore :=
  raws.foldl (fun s raw => ingested r.text r.source (r.newId s) raw s) s

section Undisturbed

variable {r : Runner} {given : Conditions} {config : Config} {raw : RawEntry} {run : IngestionRun}
  {yields : List Yield} {n : Nat}

theorem result_ingest {text : Text} {source : SourceType} {id : String} {s : LibraryStore}
    (hid : ∀ e ∈ s.entries, e.id ≠ id) : ((ingest text source id raw).run s).2 ≠ .skipped := by
  unfold ingest
  rw [run_bind, run_read]
  cases findSameName text source raw.name s with
  | some existing =>
    dsimp only
    split
    · exact fun h => by cases h
    · exact fun h => by cases h
  | none =>
    have hsome := (@mem_upsertEntry s id raw.upstreamId source (entryData source raw) hid).1
    dsimp only
    unfold upsertEntryByUpstream
    rw [run_bind, run_bind, run_atomic]
    cases hresult : (upsertEntry id source raw.upstreamId (entryData source raw) s).2 with
    | none =>
      rw [hresult] at hsome
      cases hsome
    | some created =>
      cases created with
      | true => exact fun h => by cases h
      | false => exact fun h => by cases h

theorem run_zoom_entry {α : Type} (p : Process LibraryStore SourceOp α) (s : IngestState) :
    (p.zoom IngestState.library IngestState.setLibrary RunnerOp.entry).run s =
      (s.setLibrary (p.run s.library).1, (p.run s.library).2) :=
  @run_zoom LibraryStore SourceOp α IngestState RunnerOp IngestState.library IngestState.setLibrary
    RunnerOp.entry (fun _ _ => rfl) (fun _ _ _ => rfl) (fun _ => rfl) p s

/-- An entry with which nothing goes wrong. -/
theorem run_tryIngest (hfresh : FreshIds r.newId) (hfault : given.fault n = none)
    (s : IngestState) :
    ∃ result, (tryIngest r given n raw).run s =
      (s.setLibrary (ingested r.text r.source (r.newId s.library) raw s.library), .ok result) := by
  have hstate := state_ingest r.text r.source (r.newId s.library) raw s.library
  have hresult : ((ingest r.text r.source (r.newId s.library) raw).run s.library).2 ≠ .skipped :=
    result_ingest (hfresh s.library)
  unfold tryIngest
  rw [run_bind, run_read, hfault]
  dsimp only
  rw [run_bind, run_zoom_entry, hstate]
  cases h : ((ingest r.text r.source (r.newId s.library) raw).run s.library).2 with
  | created => exact ⟨.created, rfl⟩
  | updated => exact ⟨.updated, rfl⟩
  | skipped => exact absurd h hresult

theorem run_saveProgress (hsaves : given.saveFails n = none) (state : AdapterState)
    (s : IngestState) :
    ((saveProgress given config run n state).run s).2 = none ∧
      ((saveProgress given config run n state).run s).1.library = s.library := by
  unfold saveProgress
  split
  · rw [hsaves]
    exact ⟨rfl, rfl⟩
  · exact ⟨rfl, rfl⟩

theorem run_ingestEach (hfresh : FreshIds r.newId) (s : IngestState) :
    ((ingestEach r {} config yields n run).run s).1.library =
        ingestedAll r (yields.map Yield.raw) s.library ∧
      ((ingestEach r {} config yields n run).run s).2.status = .completed := by
  induction yields generalizing n run s with
  | nil => exact ⟨rfl, rfl⟩
  | cons y rest ih =>
    obtain ⟨result, hresult⟩ := @run_tryIngest r {} y.raw n hfresh rfl s
    obtain ⟨hnone, hlibrary⟩ := @run_saveProgress {} config (run.record y.raw (.ok result)) (n + 1)
      rfl y.state (s.setLibrary (ingested r.text r.source (r.newId s.library) y.raw s.library))
    rw [run_ingestEach_cons r {} rfl hresult, tooMany, if_neg Bool.false_ne_true]
    dsimp only
    rw [hnone]
    dsimp only
    obtain ⟨hrest, hstatus⟩ := @ih (run.record y.raw (.ok result)) (n + 1)
      ((saveProgress {} config (run.record y.raw (.ok result)) (n + 1) y.state).run
        (s.setLibrary (ingested r.text r.source (r.newId s.library) y.raw s.library))).1
    refine ⟨?_, hstatus⟩
    rw [hrest, hlibrary]
    rfl

theorem run_safeRun (hfresh : FreshIds r.newId) (s : IngestState) :
    ((safeRun r {} none config yields).run s).1.library =
        ingestedAll r (yields.map Yield.raw) (cleaned r.source s.library) ∧
      ((safeRun r {} none config yields).run s).2.status = .completed := by
  obtain ⟨t, ht, hlibrary, hend⟩ := safeRun_loop r {} none config yields s
  obtain ⟨hloop, hstatus⟩ := @run_ingestEach r config (startRun r none) yields 0 hfresh t
  rw [hlibrary, hend]
  exact ⟨hloop.trans (congrArg (ingestedAll r _) ht), hstatus⟩

end Undisturbed

end Sentora.Library
