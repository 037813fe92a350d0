import Sentora.Locks.Exclusion
import Sentora.Sync.Runner

/-!
# Workers

The phase runners of several worker processes with one database
(`domains/sync/phase_runner.py`), and what a worker does when it starts
(`lifespan` of `main.py`).  Distributed locks are enabled.

An act is one call to the database, or what a coroutine does from one `await` to
the next.  What `_execute` writes besides its checkpoint is left out.
-/

namespace Sentora.Workers

open Lib Sync

/-- A call of `trigger` or of `resume`, with the lock object that it makes. -/
structure Attempt (W P : Type) where
  worker : W
  phase : P
  number : Nat
deriving DecidableEq

variable {W P : Type}

/-- How far a call is, and the run that it starts. -/
inductive Stage (W P : Type)
  | unused
  | resuming
  /-- The checkpoint is that of a completed run. -/
  | discarding
  | waiting
  | acquiring
  | executing
  | clearing
  | closing
  /-- The heartbeat task is cancelled, and `release` comes next. -/
  | stopping
  | deleting (lock : Attempt W P)
  | deleted (lock : Attempt W P)
  | returned
deriving DecidableEq

inductive Status where
  | idle | running | completed | failed | cancelled
deriving DecidableEq

structure Runner (W P : Type) where
  status : Status := .idle
  /-- The call that is inside `_lock`. -/
  lock : Option (Attempt W P) := none
  distLock : Option (Attempt W P) := none

/-- Where a worker is in `lifespan`. -/
inductive LifeSpan
  | down
  | starting
  | counting (current : Bool)
  | marking (hasResumable : Bool)
  | unlocking
  | serving
deriving DecidableEq

inductive CheckpointId (P : Type)
  | current
  | phase (p : P)
deriving DecidableEq

inductive RunStatus where
  | running | completed | failed | interrupted
deriving DecidableEq

/-- A document of `sync_runs`. -/
structure RunDoc where
  id : String
  status : RunStatus
deriving DecidableEq

structure World (W P : Type) where
  worker : W → LifeSpan
  runner : W × P → Runner W P
  stage : Attempt W P → Stage W P
  /-- The lock objects and the lock document of each `sync_phase_…`. -/
  locks : P → Locks.State (Attempt W P)
  checkpoints : List (CheckpointId P × Checkpoint)
  syncRuns : List RunDoc

def Attempt.runner (i : Attempt W P) : W × P := (i.worker, i.phase)

def ttlSeconds (_ : Attempt W P) : Nat := 3600

section Steps

variable [DecidableEq W] [DecidableEq P]

def World.loadCheckpoint (w : World W P) (id : CheckpointId P) : Option Checkpoint :=
  (w.checkpoints.find? fun x => x.1 = id).map Prod.snd

def World.clearCheckpoint (w : World W P) (id : CheckpointId P) : World W P :=
  { w with checkpoints := w.checkpoints.filter fun x => x.1 ≠ id }

def World.saveCheckpoint (w : World W P) (id : CheckpointId P) (c : Checkpoint) : World W P :=
  { w with checkpoints := (id, c) :: w.checkpoints.filter fun x => x.1 ≠ id }

def World.setStage (w : World W P) (i : Attempt W P) (stage : Stage W P) : World W P :=
  { w with stage := Function.update w.stage i stage }

def World.setRunner (w : World W P) (i : Attempt W P) (r : Runner W P) : World W P :=
  { w with runner := Function.update w.runner i.runner r }

def World.setLocks (w : World W P) (p : P) (l : Locks.State (Attempt W P)) : World W P :=
  { w with locks := Function.update w.locks p l }

def World.setWorker (w : World W P) (x : W) (l : LifeSpan) : World W P :=
  { w with worker := Function.update w.worker x l }

def World.lockAct (w : World W P) (p : P) (act : Locks.Act (Attempt W P)) : World W P :=
  w.setLocks p (Locks.next ttlSeconds (w.locks p) act)

/-- `trigger` looks for a checkpoint to resume from. -/
def trigger (i : Attempt W P) (w : World W P) : World W P :=
  match w.loadCheckpoint (.phase i.phase) with
  | some c => w.setStage i (if c.status = some "completed" then .waiting else .resuming)
  | none => w.setStage i .waiting

def resume (i : Attempt W P) (w : World W P) : World W P :=
  match w.loadCheckpoint (.phase i.phase) with
  | some c => w.setStage i (if c.status = some "completed" then .discarding else .waiting)
  | none => w.setStage i .returned

/-- Inside `_lock`, with a new lock object. -/
def enter (i : Attempt W P) (w : World W P) : World W P :=
  if (w.runner i.runner).status = .running then
    w.setStage i .returned
  else
    (((w.setLocks i.phase ((w.locks i.phase).put i {})).lockAct i.phase (.acquire i)).setRunner i
      { w.runner i.runner with lock := some i }).setStage i .acquiring

/-- `acquire` returns: the run is started, or there is none. -/
def answer (i : Attempt W P) (w : World W P) : World W P :=
  if ((w.locks i.phase).object i).call.won? = none then
    ((w.lockAct i.phase (.answer i)).setRunner i
      { w.runner i.runner with lock := none }).setStage i .returned
  else
    ((w.lockAct i.phase (.answer i)).setRunner i
      { status := .running, lock := none, distLock := some i }).setStage i .executing

/-- `_execute` returns or raises. -/
def finish (i : Attempt W P) (outcome : Status) (w : World W P) : World W P :=
  (w.setRunner i { w.runner i.runner with status := outcome }).setStage i
    (if outcome = .completed then .clearing else .closing)

/-- `_release_dist_lock` cancels the heartbeat task of the object that it finds. -/
def stop (i : Attempt W P) (w : World W P) : World W P :=
  match (w.runner i.runner).distLock with
  | some lock =>
    (w.setLocks i.phase ((w.locks i.phase).put lock
      { (w.locks i.phase).object lock with heartbeatTask := none })).setStage i .stopping
  | none => w.setStage i .returned

def release (i : Attempt W P) (w : World W P) : World W P :=
  match (w.runner i.runner).distLock with
  | some lock =>
    if ((w.locks i.phase).object lock).acquired then
      (w.lockAct i.phase (.release lock)).setStage i (.deleting lock)
    else
      ((w.lockAct i.phase (.release lock)).setRunner i
        { w.runner i.runner with distLock := none }).setStage i .returned
  | none => w.setStage i .returned

def delete (i lock : Attempt W P) (w : World W P) : World W P :=
  (w.lockAct i.phase (.delete lock)).setStage i (.deleted lock)

def drop (i lock : Attempt W P) (w : World W P) : World W P :=
  ((w.lockAct i.phase (.clear lock)).setRunner i
    { w.runner i.runner with distLock := none }).setStage i .returned

/-- `update_many` on the runs with status `running`. -/
def markRuns (hasResumable : Bool) (runs : List RunDoc) : List RunDoc :=
  runs.map fun r =>
    if r.status = .running then
      { r with status := if hasResumable then .interrupted else .failed }
    else r

/-- The clean-up deletes locks if there is a checkpoint or a stale run. -/
def mark (x : W) (hasResumable : Bool) (w : World W P) : World W P :=
  { w with syncRuns := markRuns hasResumable w.syncRuns }.setWorker x
    (if hasResumable || w.syncRuns.any fun r => r.status = RunStatus.running then .unlocking
      else .serving)

/-- `delete_many` comes to the lock of this phase. -/
def unlock (p : P) (w : World W P) : World W P :=
  w.setLocks p { w.locks p with doc := none }

def crash (x : W) (w : World W P) : World W P :=
  { w.setWorker x .down with
    runner := fun r => if r.1 = x then {} else w.runner r
    stage := fun i =>
      if i.worker = x ∧ w.stage i ≠ .unused then .returned else w.stage i
    locks := fun p =>
      { w.locks p with
        object := fun i => if i.worker = x then {} else (w.locks p).object i } }

inductive Act (W P : Type)
  | start (x : W)
  | findCurrent (x : W)
  | countPhases (x : W)
  | mark (x : W)
  | unlock (x : W) (p : P)
  | serve (x : W)
  | crash (x : W)
  | trigger (i : Attempt W P)
  | resume (i : Attempt W P)
  | enter (i : Attempt W P)
  | insert (i : Attempt W P)
  | takeOver (i : Attempt W P)
  | answer (i : Attempt W P)
  | save (i : Attempt W P) (c : Checkpoint)
  | finish (i : Attempt W P) (outcome : Status)
  | clear (i : Attempt W P)
  | stop (i : Attempt W P)
  | release (i : Attempt W P)
  | delete (i : Attempt W P)
  | drop (i : Attempt W P)
  | heartbeat (i : Attempt W P)
  | persist (x : W) (id : String) (failed : Bool)
  | expire (p : P)
  | tick (d : Nat)

def next (w : World W P) : Act W P → World W P
  | .start x => w.setWorker x .starting
  | .findCurrent x => w.setWorker x (.counting (w.loadCheckpoint .current).isSome)
  | .countPhases x =>
    match w.worker x with
    | .counting current =>
      w.setWorker x (.marking (current || w.checkpoints.any fun c => c.1 ≠ .current))
    | _ => w
  | .mark x =>
    match w.worker x with
    | .marking hasResumable => mark x hasResumable w
    | _ => w
  | .unlock _ p => unlock p w
  | .serve x => w.setWorker x .serving
  | .crash x => crash x w
  | .trigger i => trigger i w
  | .resume i => resume i w
  | .enter i => enter i w
  | .insert i => w.lockAct i.phase (.insert i)
  | .takeOver i => w.lockAct i.phase (.takeOver i)
  | .answer i => answer i w
  | .save i c => w.saveCheckpoint (.phase i.phase) c
  | .finish i outcome => finish i outcome w
  | .clear i =>
    (w.clearCheckpoint (.phase i.phase)).setStage i
      (if w.stage i = .discarding then .returned else .closing)
  | .stop i => stop i w
  | .release i => release i w
  | .delete i =>
    match w.stage i with
    | .deleting lock => delete i lock w
    | _ => w
  | .drop i =>
    match w.stage i with
    | .deleted lock => drop i lock w
    | _ => w
  | .heartbeat i => w.lockAct i.phase (.heartbeat i)
  | .persist _ id failed =>
    { w with syncRuns := ⟨id, if failed then .failed else .completed⟩ ::
        w.syncRuns.filter fun r => r.id ≠ id }
  | .expire p => w.lockAct p .expire
  | .tick d => { w with locks := fun p => Locks.next ttlSeconds (w.locks p) (.tick d) }

/-- An exception ends the clean-up, and the worker serves without the rest of it. -/
def Enabled (w : World W P) : Act W P → Prop
  | .start x => w.worker x = .down
  | .findCurrent x => w.worker x = .starting
  | .countPhases x => ∃ current, w.worker x = .counting current
  | .mark x => ∃ hasResumable, w.worker x = .marking hasResumable
  | .unlock x _ => w.worker x = .unlocking
  | .serve x => w.worker x ≠ .down
  | .crash x => w.worker x ≠ .down
  | .trigger i => w.stage i = .unused ∧ w.worker i.worker = .serving
  | .resume i =>
    w.stage i = .resuming ∨ w.stage i = .unused ∧ w.worker i.worker = .serving
  | .enter i => w.stage i = .waiting ∧ (w.runner i.runner).lock = none
  | .insert i => w.stage i = .acquiring ∧ Locks.Enabled (w.locks i.phase) (.insert i)
  | .takeOver i => w.stage i = .acquiring ∧ Locks.Enabled (w.locks i.phase) (.takeOver i)
  | .answer i => w.stage i = .acquiring ∧ Locks.Enabled (w.locks i.phase) (.answer i)
  | .save i _ => w.stage i = .executing
  | .finish i outcome =>
    w.stage i = .executing ∧ (outcome = .completed ∨ outcome = .failed ∨ outcome = .cancelled)
  | .clear i => w.stage i = .discarding ∨ w.stage i = .clearing
  | .stop i => w.stage i = .closing
  | .release i => w.stage i = .stopping
  | .delete i => ∃ lock, w.stage i = .deleting lock
  | .drop i => ∃ lock, w.stage i = .deleted lock
  | .heartbeat i => Locks.Enabled (w.locks i.phase) (.heartbeat i)
  | .persist x _ _ => w.worker x = .serving
  | .expire _ => True
  | .tick d => ∀ p, Locks.Enabled (w.locks p) (.tick d)

end Steps

end Sentora.Workers
