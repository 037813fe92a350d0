import Sentora.Locks.LeaderElection

/-!
# Phase schedulers

`_phase_scheduler` of `main.py` for one phase in any number of workers, and the runs that it
starts (`domains/sync/phase_runner.py`).  The interval is constant, no run is triggered by hand,
and every run completes.  A worker that restarts is another worker.

A scheduler counts its interval from the beginning of a sleep or, in its first cycle, from the
stored time of the last run.  Its leadership may have expired long before the sleep is over, and
it starts a run without another look at it.
-/

namespace Sentora.Schedules

open Lib Locks LeaderElection

/-- The run of a worker, until its status is `completed`. -/
inductive Execution
  | idle
  | started (startedAt : Nat)
  | executing (startedAt syncStartedAt : Nat)
deriving DecidableEq

/-- The status of the runner is `running`. -/
def Execution.isRunning : Execution → Bool
  | .started _ | .executing _ _ => true
  | .idle => false

def Execution.startedAt? : Execution → Option Nat
  | .started startedAt | .executing startedAt _ => some startedAt
  | .idle => none

/-- Where the scheduler calls `resume` or `trigger`. -/
inductive Origin
  | firstCycle
  | resume
  | trigger
deriving DecidableEq

/-- Where a scheduler is.  `base` is the time from which it counts the interval. -/
inductive Stage
  | down
  | asleep (due : Nat)
  | bidding (bid : Bid)
  | leading
  /-- The checkpoint is loaded in the first cycle. -/
  | loading
  /-- The time of the last run is read in the first cycle. -/
  | reading
  | resting (base due : Nat)
  | awake (base : Option Nat)
  | triggering (base : Option Nat)
  | resuming (origin : Origin) (base : Option Nat)
  | acquiring (origin : Origin) (base : Option Nat)
  | watching (since : Nat)
  | stopped
deriving DecidableEq

structure Worker where
  stage : Stage := .down
  firstCycle : Bool := true
  execution : Execution := .idle
  /-- Completed runs that have not cleared the checkpoint yet. -/
  clearing : Nat := 0
  /-- Completed runs that have not released the lock yet. -/
  releasing : Nat := 0

structure State (W : Type) where
  now : Nat
  claim : Option (LeaderDoc W) := none
  /-- The time of the last run in `sync_meta`. -/
  syncedAt : Option Nat := none
  /-- A checkpoint of the phase is stored. -/
  checkpoint : Bool := false
  /-- Who has the distributed lock. -/
  lock : Option W := none
  /-- Who has started a run, and when, the latest first. -/
  runs : List (W × Nat) := []
  worker : W → Worker := fun _ => {}

structure Settings where
  intervalMinutes : Nat
  enableDistributedLocks : Bool := true

def Settings.interval (cfg : Settings) : Nat := seconds (intervalMinutes cfg * 60)

variable {W : Type} [DecidableEq W]

def State.put (s : State W) (w : W) (x : Worker) : State W :=
  { s with worker := Function.update s.worker w x }

def State.setStage (s : State W) (w : W) (stage : Stage) : State W :=
  s.put w { s.worker w with stage := stage }

def State.setExecution (s : State W) (w : W) (execution : Execution) : State W :=
  s.put w { s.worker w with execution := execution }

def State.isRunning (s : State W) (w : W) : Bool := (s.worker w).execution.isRunning

/-- The loop begins again. -/
def tryBecomeLeader (w : W) (s : State W) : State W := s.setStage w (.bidding (.inserting s.now))

def afterBid (now : Nat) : BidResult → Stage
  | .leader => .leading
  | .follower => .asleep (now + seconds 15)
  | .undecided b => .bidding b

def answerBid (w : W) (b : Bid) (s : State W) : State W :=
  let (claim, result) := LeaderElection.bid 90 w s.claim b
  { s with claim := claim }.setStage w (afterBid s.now result)

def plan (cfg : Settings) (w : W) (s : State W) : State W :=
  if cfg.intervalMinutes = 0 then
    s.put w { s.worker w with firstCycle := false, stage := .asleep (s.now + seconds 60) }
  else if (s.worker w).firstCycle then
    s.put w { s.worker w with firstCycle := false, stage := .loading }
  else s.setStage w (.resting s.now (s.now + cfg.interval))

def loadCheckpoint (w : W) (s : State W) : State W :=
  if s.checkpoint then
    if s.isRunning w then tryBecomeLeader w s else s.setStage w (.resuming .firstCycle none)
  else s.setStage w .reading

def readSyncedAt (cfg : Settings) (w : W) (s : State W) : State W :=
  match s.syncedAt with
  | none => s.setStage w (.awake none)
  | some t =>
    if s.now < t + cfg.interval then s.setStage w (.resting t (t + cfg.interval))
    else s.setStage w (.awake (some t))

/-- Behind the sleep: wait for a run of this worker, resume one, or trigger one. -/
def look (w : W) (base : Option Nat) (s : State W) : State W :=
  if s.isRunning w then s.setStage w (.watching s.now)
  else if s.checkpoint then s.setStage w (.resuming .resume base)
  else s.setStage w (.triggering base)

/-- `resume` or `trigger` returns nothing. -/
def refuse (w : W) (base : Option Nat) (s : State W) : Origin → State W
  | .firstCycle => s.setStage w (.asleep (s.now + seconds 30))
  | .resume => s.setStage w (.triggering base)
  | .trigger => s.setStage w (.asleep (s.now + seconds 60))

def trigger (w : W) (base : Option Nat) (s : State W) : State W :=
  if s.checkpoint then s.setStage w (.resuming .trigger base)
  else s.setStage w (.acquiring .trigger base)

def resume (w : W) (origin : Origin) (base : Option Nat) (s : State W) : State W :=
  if s.checkpoint then s.setStage w (.acquiring origin base) else refuse w base s origin

/-- The runner is not busy, and the distributed lock is free. -/
def canStart (cfg : Settings) (w : W) (s : State W) : Bool :=
  !s.isRunning w && (!cfg.enableDistributedLocks || s.lock.isNone)

def startRun (cfg : Settings) (w : W) (origin : Origin) (s : State W) : State W :=
  { s with
    runs := (w, s.now) :: s.runs
    lock := if cfg.enableDistributedLocks then some w else s.lock }.put w
      { s.worker w with
        execution := .started s.now
        stage :=
          if origin = Origin.firstCycle then .bidding (.inserting s.now) else .watching s.now }

def acquire (cfg : Settings) (w : W) (origin : Origin) (base : Option Nat) (s : State W) :
    State W :=
  if canStart cfg w s then startRun cfg w origin s else refuse w base s origin

inductive Act (W : Type)
  | start (w : W)
  | wake (w : W)
  | bid (w : W)
  | plan (w : W)
  | load (w : W)
  | read (w : W)
  | look (w : W)
  | resume (w : W)
  | trigger (w : W)
  | acquire (w : W)
  | heartbeat (w : W)
  /-- The run is over, or has been watched for an hour. -/
  | leave (w : W)
  | stop (w : W)
  | crash (w : W)
  | execute (w : W)
  | saveCheckpoint (w : W)
  | persistSyncedAt (w : W)
  | complete (w : W)
  | clearCheckpoint (w : W)
  | release (w : W)
  | expire
  | tick (d : Nat)
deriving DecidableEq

def next (cfg : Settings) (s : State W) : Act W → State W
  | .start w => s.setStage w (.asleep (s.now + seconds 30))
  | .wake w =>
    match (s.worker w).stage with
    | .asleep _ => tryBecomeLeader w s
    | .resting base _ => s.setStage w (.awake (some base))
    | _ => s
  | .bid w =>
    match (s.worker w).stage with
    | .bidding b => answerBid w b s
    | _ => s
  | .plan w => plan cfg w s
  | .load w => loadCheckpoint w s
  | .read w => readSyncedAt cfg w s
  | .look w =>
    match (s.worker w).stage with
    | .awake base => look w base s
    | _ => s
  | .resume w =>
    match (s.worker w).stage with
    | .resuming origin base => resume w origin base s
    | _ => s
  | .trigger w =>
    match (s.worker w).stage with
    | .triggering base => trigger w base s
    | _ => s
  | .acquire w =>
    match (s.worker w).stage with
    | .acquiring origin base => acquire cfg w origin base s
    | _ => s
  | .heartbeat w => { s with claim := LeaderElection.heartbeat 90 w s.now s.claim }
  | .leave w => tryBecomeLeader w s
  | .stop w => { s with claim := resign w s.claim }.setStage w .stopped
  | .crash w => s.setStage w .stopped
  | .execute w =>
    match (s.worker w).execution with
    | .started startedAt => s.setExecution w (.executing startedAt s.now)
    | _ => s
  | .saveCheckpoint _ => { s with checkpoint := true }
  | .persistSyncedAt w =>
    match (s.worker w).execution with
    | .executing _ syncStartedAt => { s with syncedAt := some syncStartedAt }
    | _ => s
  | .complete w =>
    let x := s.worker w
    s.put w { x with execution := .idle, clearing := x.clearing + 1 }
  | .clearCheckpoint w =>
    let x := s.worker w
    { s with checkpoint := false }.put w
      { x with clearing := x.clearing - 1, releasing := x.releasing + 1 }
  | .release w =>
    let x := s.worker w
    { s with lock := if s.lock = some w then none else s.lock }.put w
      { x with releasing := x.releasing - 1 }
  | .expire => { s with claim := LeaderElection.expire s.now s.claim }
  | .tick d => { s with now := s.now + d }

def Stage.isDue (now : Nat) : Stage → Bool
  | .asleep due | .resting _ due => due ≤ now
  | _ => false

def Stage.isBidding : Stage → Bool
  | .bidding _ => true
  | _ => false

def Stage.isAwake : Stage → Bool
  | .awake _ => true
  | _ => false

def Stage.isTriggering : Stage → Bool
  | .triggering _ => true
  | _ => false

def Stage.isResuming : Stage → Bool
  | .resuming _ _ => true
  | _ => false

def Stage.isAcquiring : Stage → Bool
  | .acquiring _ _ => true
  | _ => false

def Stage.since? : Stage → Option Nat
  | .watching since => some since
  | _ => none

def Execution.isStarted : Execution → Bool
  | .started _ => true
  | _ => false

def Execution.isExecuting : Execution → Bool
  | .executing _ _ => true
  | _ => false

def Worker.isQuiet (x : Worker) : Bool :=
  x.execution = .idle && x.clearing = 0 && x.releasing = 0

/-- Sleeps are over when they are due, a worker does not stop during a run, and a run takes less
than the interval. -/
def Enabled (cfg : Settings) (s : State W) : Act W → Prop
  | .start w => (s.worker w).stage = .down
  | .wake w => (s.worker w).stage.isDue s.now = true
  | .bid w => (s.worker w).stage.isBidding = true
  | .plan w => (s.worker w).stage = .leading
  | .load w => (s.worker w).stage = .loading
  | .read w => (s.worker w).stage = .reading
  | .look w => (s.worker w).stage.isAwake = true
  | .resume w => (s.worker w).stage.isResuming = true
  | .trigger w => (s.worker w).stage.isTriggering = true
  | .acquire w => (s.worker w).stage.isAcquiring = true
  | .heartbeat w => (s.worker w).stage.since? ≠ none
  | .leave w => ((s.worker w).stage.since?.any fun since =>
    !s.isRunning w || since + seconds 3600 ≤ s.now) = true
  | .stop w | .crash w =>
    (s.worker w).stage ≠ .down ∧ (s.worker w).stage ≠ .stopped ∧ (s.worker w).isQuiet = true
  | .execute w => (s.worker w).execution.isStarted = true
  | .saveCheckpoint w | .persistSyncedAt w | .complete w =>
    (s.worker w).execution.isExecuting = true
  | .clearCheckpoint w => (s.worker w).clearing ≠ 0
  | .release w => (s.worker w).releasing ≠ 0
  | .expire => True
  | .tick d => ∀ w, ((s.worker w).execution.startedAt?.all fun startedAt =>
    s.now + d < startedAt + cfg.interval) = true

instance [Fintype W] (cfg : Settings) (s : State W) : ∀ act, Decidable (Enabled cfg s act)
  | .start _ | .plan _ | .load _ | .read _ => inferInstanceAs (Decidable (_ = _))
  | .wake _ | .bid _ | .look _ | .resume _ | .trigger _ | .acquire _ | .leave _ | .execute _
  | .saveCheckpoint _ | .persistSyncedAt _ | .complete _ => inferInstanceAs (Decidable (_ = true))
  | .heartbeat _ | .clearCheckpoint _ | .release _ => inferInstanceAs (Decidable (_ ≠ _))
  | .stop _ | .crash _ => inferInstanceAs (Decidable (_ ≠ _ ∧ _ ≠ _ ∧ _ = true))
  | .expire => inferInstanceAs (Decidable True)
  | .tick _ => inferInstanceAs (Decidable (∀ _, _ = true))

def schedulers (cfg : Settings) : Machine (State W) (Act W) := ⟨Enabled cfg, next cfg⟩

instance [Fintype W] (cfg : Settings) (s : State W) (act : Act W) :
    Decidable ((schedulers cfg).Enabled s act) :=
  inferInstanceAs (Decidable (Enabled cfg s act))

/-- No worker has started.  A claim and a time of an older run may be stored. -/
def fresh (now : Nat) (claim : Option (LeaderDoc W)) (syncedAt : Option Nat) : State W :=
  { now := now, claim := claim, syncedAt := syncedAt }

end Sentora.Schedules
