import Mathlib.Data.List.DropRight
import Sentora.Sync.Workers

/-!
# The sync manager

`SyncManager` of one worker (`domains/sync/manager.py`) with its phase runners: the
run that the progress of the phases is shown under, and how it is closed.

A call of `trigger` or `resume` that starts a run of a phase is an attempt.  Its
coroutine waits for each of its broadcasts, and a broadcast holds
`_broadcast_lock` until its message is published.
-/

namespace Sentora.Progress

open Lib
open Workers (Status RunStatus)

inductive Phase where
  | sites | groups | agents | apps | tags | csGroups | csAgents | csApps
deriving DecidableEq

/-- The registered runners, in the order of `_runners`. -/
def registered (crowdStrike : Bool) : List Phase :=
  [.sites, .groups, .agents, .apps, .tags] ++
    if crowdStrike then [.csGroups, .csAgents, .csApps] else []

inductive Entity where
  | sites | groups | agents | apps | tags
deriving DecidableEq

def countField : Phase → Entity
  | .sites => .sites
  | .groups | .csGroups => .groups
  | .agents | .csAgents => .agents
  | .apps | .csApps => .apps
  | .tags => .tags

structure Tally where
  synced : Nat := 0
  total : Nat := 0
deriving DecidableEq

/-- The fields of `SyncCounts`. -/
abbrev SyncCounts := Entity → Tally

/-- What a phase runner says about itself. -/
structure PhaseRunner where
  status : Status := .idle
  tally : Tally := {}
  runId : String := ""
deriving DecidableEq

structure SyncRun where
  id : String
  status : RunStatus
  /-- `none` is `done`. -/
  phase : Option Phase
  counts : SyncCounts

inductive DataType where
  | progress | phaseCompleted | phaseFailed | phaseCancelled
deriving DecidableEq

def DataType.terminal : DataType → Bool
  | .progress => false
  | .phaseCompleted | .phaseFailed | .phaseCancelled => true

structure PhaseData where
  type : DataType
  phase : Phase
  runId : String
deriving DecidableEq

inductive MessageType where
  | progress | completed | failed
deriving DecidableEq

/-- `SyncProgressMessage`. -/
structure ProgressMessage where
  type : MessageType
  runId : String
  status : RunStatus
  phase : Phase
  counts : SyncCounts
  phaseDetails : Phase → PhaseRunner

structure Attempt where
  phase : Phase
  number : Nat
deriving DecidableEq

inductive Stage where
  | unused
  | waiting (data : PhaseData)
  | broadcasting (last : Bool)
  | executing
  | clearing
  | done
deriving DecidableEq

/-- Who holds `_broadcast_lock`, and for what. -/
inductive BroadcastLock
  | free
  | persisting (i : Attempt) (message : ProgressMessage)
  | sending (i : Attempt) (last : Bool) (message : ProgressMessage)
  | publishing (i : Attempt) (last : Bool) (message : ProgressMessage)

structure Manager where
  runner : Phase → PhaseRunner
  stage : Attempt → Stage
  lock : BroadcastLock
  currentRun : Option SyncRun
  lastCompleted : Option SyncRun
  history : List SyncRun
  /-- The runs that `_persist_run` was called with. -/
  persisted : List SyncRun

namespace Manager

def setRunner (m : Manager) (p : Phase) (r : PhaseRunner) : Manager :=
  { m with runner := Function.update m.runner p r }

def setStage (m : Manager) (i : Attempt) (st : Stage) : Manager :=
  { m with stage := Function.update m.stage i st }

section Registered

variable (crowdStrike : Bool)

def snapshot (m : Manager) : SyncCounts :=
  (registered crowdStrike).foldl
    (fun counts p =>
      if (m.runner p).status ≠ .idle then
        Function.update counts (countField p) (m.runner p).tally
      else counts)
    fun _ => {}

def anyPhaseRunning (m : Manager) : Bool :=
  (registered crowdStrike).any fun p => (m.runner p).status = .running

def anyPhaseFailed (m : Manager) : Bool :=
  (registered crowdStrike).any fun p => (m.runner p).status = .failed

def openRun (data : PhaseData) (newId : String) (m : Manager) : Option SyncRun :=
  match m.currentRun with
  | some run => some run
  | none =>
    if m.anyPhaseRunning crowdStrike then
      some
        { id := if data.runId = "" then newId else data.runId
          status := .running
          phase := some data.phase
          counts := fun _ => {} }
    else none

def touch (data : PhaseData) (m : Manager) (run : SyncRun) : SyncRun :=
  { run with
    phase := if run.status = .running then some data.phase else run.phase
    counts := m.snapshot crowdStrike }

def closeRun (m : Manager) (run : SyncRun) : SyncRun :=
  { run with
    status := if m.anyPhaseFailed crowdStrike then .failed else .completed
    phase := none }

def closes (data : PhaseData) (newId : String) (m : Manager) : Option SyncRun :=
  if data.type.terminal && !m.anyPhaseRunning crowdStrike then
    (m.openRun crowdStrike data newId).map fun run =>
      m.closeRun crowdStrike (m.touch crowdStrike data run)
  else none

def message (data : PhaseData) (type : MessageType) (run : Option SyncRun) (m : Manager) :
    ProgressMessage where
  type := type
  runId := run.elim data.runId SyncRun.id
  status := run.elim .running SyncRun.status
  phase := data.phase
  counts := m.snapshot crowdStrike
  phaseDetails := m.runner

/-- `_phase_broadcast_inner` to its first `await`. -/
def phaseBroadcastInner (i : Attempt) (data : PhaseData) (newId : String) (m : Manager) : Manager :=
  match m.closes crowdStrike data newId with
  | some run =>
    { m.setStage i (.broadcasting true) with
      lock := .persisting i (m.message crowdStrike data
        (if m.anyPhaseFailed crowdStrike then .failed else .completed) (some run))
      currentRun := some run
      lastCompleted := some run
      history := (m.history ++ [run]).rtake 100
      persisted := m.persisted ++ [run] }
  | none =>
    { m.setStage i (.broadcasting data.type.terminal) with
      lock := .sending i data.type.terminal (m.message crowdStrike data .progress
        ((m.openRun crowdStrike data newId).map (m.touch crowdStrike data)))
      currentRun := (m.openRun crowdStrike data newId).map (m.touch crowdStrike data) }

end Registered

def resetRunner (r : PhaseRunner) : PhaseRunner :=
  if r.status = .completed ∨ r.status = .failed ∨ r.status = .cancelled then
    { r with status := .idle }
  else r

def closed (i : Attempt) (message : ProgressMessage) (m : Manager) : Manager :=
  { m with
    lock := .sending i true message
    currentRun := none
    runner := fun p => resetRunner (m.runner p) }

def start (i : Attempt) (runId : String) (tally : Tally) (m : Manager) : Manager :=
  (m.setRunner i.phase { status := .running, tally := tally, runId := runId }).setStage i
    (.waiting { type := .progress, phase := i.phase, runId := runId })

def count (i : Attempt) (tally : Tally) (m : Manager) : Manager :=
  m.setRunner i.phase { m.runner i.phase with tally := tally }

/-- `_broadcast` of a runner, which waits for the lock. -/
def broadcast (i : Attempt) (type : DataType) (m : Manager) : Manager :=
  m.setStage i (.waiting { type := type, phase := i.phase, runId := (m.runner i.phase).runId })

inductive Outcome where
  | completed | failed | cancelled
deriving DecidableEq

def Outcome.status : Outcome → Status
  | .completed => .completed
  | .failed => .failed
  | .cancelled => .cancelled

def setStatus (i : Attempt) (outcome : Outcome) (m : Manager) : Manager :=
  m.setRunner i.phase { m.runner i.phase with status := outcome.status }

/-- `_execute` has ended.  A completed attempt clears its checkpoint first. -/
def finish (i : Attempt) (outcome : Outcome) (m : Manager) : Manager :=
  match outcome with
  | .completed => (m.setStatus i .completed).setStage i .clearing
  | .failed => (m.setStatus i .failed).broadcast i .phaseFailed
  | .cancelled => (m.setStatus i .cancelled).broadcast i .phaseCancelled

/-- `clear_checkpoint` raises. -/
def clearFails (i : Attempt) (m : Manager) : Manager :=
  (m.setStatus i .failed).broadcast i .phaseFailed

inductive Act where
  | start (i : Attempt) (runId : String) (tally : Tally)
  | count (i : Attempt) (tally : Tally)
  | update (i : Attempt)
  | finish (i : Attempt) (outcome : Outcome)
  | clear (i : Attempt)
  | clearFails (i : Attempt)
  | inner (i : Attempt) (newId : String)
  | persist
  | send
  | publish
deriving DecidableEq

variable (crowdStrike : Bool)

def next (m : Manager) : Act → Manager
  | .start i runId tally => m.start i runId tally
  | .count i tally => m.count i tally
  | .update i => m.broadcast i .progress
  | .finish i outcome => m.finish i outcome
  | .clear i => m.broadcast i .phaseCompleted
  | .clearFails i => m.clearFails i
  | .inner i newId =>
    match m.stage i with
    | .waiting data => m.phaseBroadcastInner crowdStrike i data newId
    | _ => m
  | .persist =>
    match m.lock with
    | .persisting i message => m.closed i message
    | _ => m
  | .send =>
    match m.lock with
    | .sending i last message => { m with lock := .publishing i last message }
    | _ => m
  | .publish =>
    match m.lock with
    | .publishing i last _ =>
      { m.setStage i (if last then .done else .executing) with lock := .free }
    | _ => m

/-- A phase is started when its runner is not running; the rest is the order of
the coroutine of the attempt, and of the holder of the lock. -/
def Enabled (m : Manager) : Act → Prop
  | .start i _ _ =>
    i.phase ∈ registered crowdStrike ∧ m.stage i = .unused ∧ (m.runner i.phase).status ≠ .running
  | .count i _ | .update i | .finish i _ => m.stage i = .executing
  | .clear i | .clearFails i => m.stage i = .clearing
  | .inner i _ => (∃ data, m.stage i = .waiting data) ∧ m.lock = .free
  | .persist => ∃ i message, m.lock = .persisting i message
  | .send => ∃ i last message, m.lock = .sending i last message
  | .publish => ∃ i last message, m.lock = .publishing i last message ∧
      m.stage i = .broadcasting last

end Manager

end Sentora.Progress
