import Sentora.Classification.Run
import Sentora.Locks.DistributedLock

/-!
# The classification manager

`trigger` of a `ClassificationManager` and its background run, on one worker: the flag, the
distributed lock, and what else happens to the lock in the meantime.

A trigger and its run are one request.  Which of their steps raise is given beforehand.
-/

namespace Sentora.Classification

open Lib

/-- The process id and the random part of an owner id. -/
structure Owner where
  pid : Nat
  uuid : Nat
deriving DecidableEq

abbrev LockDoc := Locks.LockDoc Owner

structure Manager where
  running : Bool := false
  currentRunId : Option Nat := none
  /-- The lock object that the manager has. -/
  distLock : Option Owner := none
  /-- The owner whose heartbeat task runs. -/
  heartbeat : Option Owner := none

/-- What a worker works with. -/
structure Site (F : Type) where
  database : Database F
  now : Nat
  /-- The document of `distributed_locks` with the name of the pipeline. -/
  lock : Option LockDoc
  manager : Manager

structure Worker where
  pid : Nat
  enableDistributedLocks : Bool

structure TriggerFailures extends Failures where
  insertLock : Ending := .done
  takeOverLock : Ending := .done
  saveRun : Ending := .done
  deleteLock : Ending := .done

/-- What becomes of the lock document while a worker does something else. -/
inductive Fate where
  /-- The heartbeat task, if there is one, has extended it. -/
  | kept (expiresAt : Nat)
  /-- It is gone, or that of another worker. -/
  | changed (doc : Option LockDoc)

section Steps

variable {F : Type}

def Worker.isOther (k : Worker) (d : LockDoc) : Bool := d.ownerId.pid != k.pid

def Site.pass (k : Worker) (elapsed : Nat) (fate : Fate) (s : Site F) : Site F :=
  { s with
    now := s.now + elapsed
    lock :=
      match fate with
      | .kept expiresAt =>
        s.lock.map fun d => if s.manager.heartbeat = some d.ownerId then { d with expiresAt } else d
      | .changed doc => doc.filter k.isOther }

def ttlSeconds : Nat := 3600

def lockDocOf (owner : Owner) (now : Nat) : LockDoc := ⟨owner, now, now + Locks.seconds ttlSeconds⟩

/-- A write of the lock document, and whether `acquire` has won. -/
def Site.writeLock (owner : Owner) (ending : Ending) (s : Site F) : Site F × Bool :=
  (if ending.isApplied then { s with lock := some (lockDocOf owner s.now) } else s, !ending.raised)

/-- `acquire` of a new lock object.  An exception counts as a lock that another worker holds. -/
def Site.acquire (owner : Owner) (fails : TriggerFailures) (s : Site F) : Site F × Bool :=
  match s.lock with
  | none => s.writeLock owner fails.insertLock
  | some d =>
    if fails.insertLock.raised then (s, false)
    else if d.expiresAt < s.now then s.writeLock owner fails.takeOverLock
    else (s, false)

def Site.acquireDistLock (k : Worker) (uuid : Nat) (fails : TriggerFailures) (s : Site F) :
    Site F × Bool :=
  if k.enableDistributedLocks then
    let owner : Owner := ⟨k.pid, uuid⟩
    match s.acquire owner fails with
    | (s', true) =>
      ({ s' with
          manager := { s'.manager with distLock := some owner, heartbeat := some owner } }, true)
    | (s', false) => (s', false)
  else (s, true)

/-- `_release_dist_lock`, which deletes the document of its owner. -/
def Site.releaseDistLock (ending : Ending) (s : Site F) : Site F :=
  match s.manager.distLock with
  | none => s
  | some owner =>
    { s with
      lock := if ending.isApplied then s.lock.filter (fun d => d.ownerId != owner) else s.lock
      manager := { s.manager with distLock := none, heartbeat := none } }

inductive Answer where
  | started (runId : Nat)
  | inProgress
  | raised
deriving DecidableEq

def Site.trigger (k : Worker) (label : String) (uuid : Nat) (fails : TriggerFailures)
    (s : Site F) : Site F × Answer :=
  if s.manager.running then (s, .inProgress)
  else
    match s.acquireDistLock k uuid fails with
    | (s', false) => (s', .inProgress)
    | (s', true) =>
      let runId := newRunId s'.database
      ({ s' with
          database :=
            if fails.saveRun.isApplied then saveRun label s'.database else s'.database
          manager := { s'.manager with running := true, currentRunId := some runId } },
        if fails.saveRun.raised then .raised else .started runId)

def Site.runTask [DecidableEq F] (k : Worker) (e : Engine F) (fails : TriggerFailures)
    (elapsed : Nat) (fate : Fate) (runId : Nat) (s : Site F) : Site F :=
  let s := s.pass k elapsed fate
  { s with
    database := runClassification e fails.toFailures runId s.database
    manager := { s.manager with running := false, currentRunId := none } }.releaseDistLock
      fails.deleteLock

def Site.triggerAndRun [DecidableEq F] (k : Worker) (e : Engine F) (label : String) (uuid : Nat)
    (fails : TriggerFailures) (elapsed : Nat) (fate : Fate) (s : Site F) : Site F :=
  match s.trigger k label uuid fails with
  | (s', .started runId) => s'.runTask k e fails elapsed fate runId
  | (s', _) => s'

end Steps

end Sentora.Classification
