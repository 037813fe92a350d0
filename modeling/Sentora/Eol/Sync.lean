import Sentora.Lib.Fallible
import Sentora.Library.Runner

/-!
# The EOL sync

`sync_eol_data` of `domains/eol/service.py`: the flag of a running sync, and the status of its
ingestion run.  Which of its steps raise is given beforehand.
-/

namespace Sentora.Eol

open Lib
open Library (RunStatus)

/-- The state of the module, and the status of each ingestion run. -/
structure SyncState where
  syncRunning : Bool := false
  syncStatus : String := "idle"
  ingestionRuns : List RunStatus := []
deriving DecidableEq

structure SyncFailures where
  insertRun : Ending := .done
  broadcast : Bool := false
  doSync : Bool := false
  updateRun : Ending := .done
  broadcastCompleted : Bool := false
  updateFailed : Ending := .done
  broadcastFailed : Bool := false

/-- `_broadcast_progress`, up to the clients. -/
def SyncState.broadcastProgress (status : String) (s : SyncState) : SyncState :=
  { s with syncStatus := status }

/-- `insert_ingestion_run`. -/
def SyncState.insertRun (ending : Ending) (s : SyncState) : SyncState :=
  if ending.isApplied then { s with ingestionRuns := s.ingestionRuns ++ [.running] } else s

/-- `update_ingestion_run` of the last run. -/
def SyncState.updateRun (ending : Ending) (status : RunStatus) (s : SyncState) : SyncState :=
  if ending.isApplied then { s with ingestionRuns := s.ingestionRuns.dropLast ++ [status] } else s

/-- The `except` block: its update may fail. -/
def SyncState.failed (fails : SyncFailures) (s : SyncState) : SyncState × Option String :=
  ((s.updateRun fails.updateFailed .failed).broadcastProgress "failed",
    if fails.broadcastFailed then none else some "failed")

/-- The `try` block. -/
def SyncState.synced (fails : SyncFailures) (s : SyncState) : SyncState × Option String :=
  if fails.doSync then s.failed fails
  else
    let s := s.updateRun fails.updateRun .completed
    if fails.updateRun.raised then s.failed fails
    else
      let s := s.broadcastProgress "completed"
      if fails.broadcastCompleted then s.failed fails else (s, some "completed")

/-- `sync_eol_data`, with the status that it returns unless it raises. -/
def SyncState.syncEolData (fails : SyncFailures) (s : SyncState) : SyncState × Option String :=
  if s.syncRunning then (s, some "already_running")
  else
    let s := ({ s with syncRunning := true } : SyncState).insertRun fails.insertRun
    if fails.insertRun.raised then (s, none)
    else
      let s := s.broadcastProgress "running"
      if fails.broadcast then (s, none)
      else
        let (s, status) := s.synced fails
        ({ s with syncRunning := false }, status)

end Sentora.Eol
