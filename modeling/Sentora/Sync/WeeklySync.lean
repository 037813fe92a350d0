import Sentora.Locks.LeaderElection
import Sentora.Sync.Manager

/-!
# The weekly full sync

`_weekly_full_sync_scheduler` of `main.py` in any number of workers, and the `trigger_all` that it
calls (`domains/sync/manager.py`).  A worker that restarts is another worker.  Phases may also
start for other reasons, in any worker.

A worker reads the date of the last full sync when it starts, and from then on remembers the
dates of its own calls only.
-/

namespace Sentora.WeeklySync

open Lib Locks LeaderElection
open Progress (Phase registered)

def day (now : Nat) : Nat := now / seconds 86400

/-- Monday is `0`; the first day of the epoch is a Thursday. -/
def weekday (now : Nat) : Nat := (day now + 3) % 7

theorem day_mono {now now' : Nat} (h : now ≤ now') : day now ≤ day now' := Nat.div_le_div_right h

structure Settings where
  crowdStrike : Bool
  enableDistributedLocks : Bool

/-- Where `trigger_all` is. -/
inductive Position
  | creatingS1Client
  | s1 (rest : List Phase)
  | creatingCsClient
  | cs (rest : List Phase)
deriving DecidableEq

/-- A call of `trigger_all`, with the day that it is made on. -/
structure Call where
  today : Nat
  calledOn : Nat
  position : Position
  phasesStarted : List Phase
deriving DecidableEq

inductive Stage
  | down
  | starting (due : Nat)
  | loading
  | asleep (due : Nat)
  | bidding (bid : Bid)
  | leading
  /-- The date of today is read. -/
  | dated (today : Nat)
  | calling (call : Call)
  | storing (today : Nat)
  | resting (left due : Nat)
  | stopped
deriving DecidableEq

structure Worker where
  stage : Stage := .down
  lastFullSyncDate : Option Nat := none
  running : Phase → Bool := fun _ => false

/-- What is told of the workers. -/
inductive Event (W : Type)
  /-- The stored date was read at the start. -/
  | loaded (w : W) (date : Option Nat)
  /-- A call of `trigger_all` started its first phase. -/
  | started (w : W) (calledOn : Nat)
deriving DecidableEq

structure State (W : Type) where
  now : Nat
  claim : Option (LeaderDoc W) := none
  /-- The date of the last full sync in `sync_meta`. -/
  lastFullSyncDate : Option Nat := none
  /-- Who has the distributed lock of a phase. -/
  lock : Phase → Option W := fun _ => none
  history : List (Event W) := []
  worker : W → Worker := fun _ => {}

variable {W : Type} [DecidableEq W] (cfg : Settings)

def State.put (s : State W) (w : W) (x : Worker) : State W :=
  { s with worker := Function.update s.worker w x }

def State.setStage (s : State W) (w : W) (stage : Stage) : State W :=
  s.put w { s.worker w with stage := stage }

def load (w : W) (s : State W) : State W :=
  { s with history := .loaded w s.lastFullSyncDate :: s.history }.put w
    { s.worker w with
      lastFullSyncDate := s.lastFullSyncDate
      stage := .bidding (.inserting s.now) }

def afterBid (now : Nat) : BidResult → Stage
  | .leader => .leading
  | .follower => .asleep (now + seconds 60)
  | .undecided b => .bidding b

def answerBid (w : W) (b : Bid) (s : State W) : State W :=
  let (claim, result) := LeaderElection.bid 90 w s.claim b
  { s with claim := claim }.setStage w (afterBid s.now result)

def isRunning (x : Worker) : Bool := (registered cfg.crowdStrike).any x.running

/-- About an hour in pieces of 30 seconds. -/
def rest (now : Nat) : Stage := .resting 120 (now + seconds 30)

/-- The look at the weekday, the memory and the phases, up to the first call of `trigger_all`. -/
def check (w : W) (today : Nat) (s : State W) : State W :=
  let x := s.worker w
  if weekday s.now = 6 ∧ x.lastFullSyncDate ≠ some today ∧ isRunning cfg x = false then
    s.setStage w (.calling ⟨today, day s.now, .creatingS1Client, []⟩)
  else s.setStage w (rest s.now)

def heartbeat (w : W) (left : Nat) (s : State W) : State W :=
  { s with claim := LeaderElection.heartbeat 90 w s.now s.claim }.setStage w <|
    match left with
    | 0 | 1 => .bidding (.inserting s.now)
    | left + 2 => .resting (left + 1) (s.now + seconds 30)

def store (w : W) (today : Nat) (s : State W) : State W :=
  { s with lastFullSyncDate := some today }.setStage w (rest s.now)

def canStart (w : W) (p : Phase) (s : State W) : Bool :=
  !(s.worker w).running p && (!cfg.enableDistributedLocks || (s.lock p).isNone)

def begin (w : W) (p : Phase) (s : State W) : State W :=
  { s with
    lock := if cfg.enableDistributedLocks then Function.update s.lock p (some w) else s.lock }.put w
      { s.worker w with running := Function.update (s.worker w).running p true }

def answerCall (w : W) (call : Call) (s : State W) : State W :=
  s.put w
    { s.worker w with
      lastFullSyncDate :=
        if call.phasesStarted = [] then (s.worker w).lastFullSyncDate else some call.today
      stage := .storing call.today }

/-- The next phase of the call, which leaves `position` behind. -/
def triggerPhase (w : W) (call : Call) (p : Phase) (position : Position) (s : State W) :
    State W :=
  if canStart cfg w p s then
    let s' := begin cfg w p s
    { s' with
      history :=
        if call.phasesStarted = [] then .started w call.calledOn :: s'.history else s'.history
      }.setStage w
        (.calling { call with position := position, phasesStarted := call.phasesStarted ++ [p] })
  else s.setStage w (.calling { call with position := position })

def csPhases : List Phase := (registered true).drop 5

/-- A step of `trigger_all`.  Without a client for SentinelOne the call raises, which ends the
scheduler; without one for CrowdStrike it returns. -/
def continueCall (w : W) (clientCreated : Bool) (call : Call) (s : State W) : State W :=
  match call.position with
  | .creatingS1Client =>
    if clientCreated then s.setStage w (.calling { call with position := .s1 (registered false) })
    else s.setStage w .stopped
  | .s1 (p :: phases) => triggerPhase cfg w call p (.s1 phases) s
  | .s1 [] =>
    if cfg.crowdStrike then s.setStage w (.calling { call with position := .creatingCsClient })
    else answerCall w call s
  | .creatingCsClient =>
    if clientCreated then s.setStage w (.calling { call with position := .cs csPhases })
    else answerCall w call s
  | .cs (p :: phases) => triggerPhase cfg w call p (.cs phases) s
  | .cs [] => answerCall w call s

inductive Act (W : Type)
  | start (w : W)
  | wake (w : W)
  | load (w : W)
  | bid (w : W)
  | readDate (w : W)
  | check (w : W)
  | continueCall (w : W) (clientCreated : Bool)
  | store (w : W)
  | heartbeat (w : W)
  | stop (w : W)
  | crash (w : W)
  /-- A phase starts for another reason. -/
  | begin (w : W) (p : Phase)
  | finish (w : W) (p : Phase)
  | release (w : W) (p : Phase)
  | expire
  | tick (d : Nat)
deriving DecidableEq

def next (s : State W) : Act W → State W
  | .start w => s.setStage w (.starting (s.now + seconds 60))
  | .wake w =>
    match (s.worker w).stage with
    | .starting _ => s.setStage w .loading
    | .asleep _ => s.setStage w (.bidding (.inserting s.now))
    | _ => s
  | .load w => load w s
  | .bid w =>
    match (s.worker w).stage with
    | .bidding b => answerBid w b s
    | _ => s
  | .readDate w => s.setStage w (.dated (day s.now))
  | .check w =>
    match (s.worker w).stage with
    | .dated today => check cfg w today s
    | _ => s
  | .continueCall w clientCreated =>
    match (s.worker w).stage with
    | .calling call => continueCall cfg w clientCreated call s
    | _ => s
  | .store w =>
    match (s.worker w).stage with
    | .storing today => store w today s
    | _ => s
  | .heartbeat w =>
    match (s.worker w).stage with
    | .resting left _ => heartbeat w left s
    | _ => s
  | .stop w => { s with claim := resign w s.claim }.setStage w .stopped
  | .crash w => s.setStage w .stopped
  | .begin w p => begin cfg w p s
  | .finish w p =>
    s.put w { s.worker w with running := Function.update (s.worker w).running p false }
  | .release _ p => { s with lock := Function.update s.lock p none }
  | .expire => { s with claim := LeaderElection.expire s.now s.claim }
  | .tick d => { s with now := s.now + d }

/-- The sleep of the start or of a follower is over. -/
def Stage.isDue (now : Nat) : Stage → Bool
  | .starting due | .asleep due => due ≤ now
  | _ => false

def Stage.isBidding : Stage → Bool
  | .bidding _ => true
  | _ => false

def Stage.isDated : Stage → Bool
  | .dated _ => true
  | _ => false

def Stage.isCalling : Stage → Bool
  | .calling _ => true
  | _ => false

def Stage.isStoring : Stage → Bool
  | .storing _ => true
  | _ => false

def Stage.isRested (now : Nat) : Stage → Bool
  | .resting _ due => due ≤ now
  | _ => false

/-- The worker is past `try_become_leader`. -/
def Stage.isLeader : Stage → Bool
  | .leading | .dated _ | .calling _ | .storing _ | .resting _ _ => true
  | .down | .starting _ | .loading | .asleep _ | .bidding _ | .stopped => false

/-- At the time `now` the claim of a leader has not expired, and a bid has been answered. -/
def Stage.onTime (now : Nat) (claim : Option (LeaderDoc W)) (w : W) : Stage → Bool
  | .bidding b => now < b.now + seconds 90
  | .leading | .dated _ | .calling _ | .storing _ | .resting _ _ =>
    claim.all fun doc => doc.workerId ≠ w || now < doc.expiresAt
  | .down | .starting _ | .loading | .asleep _ | .stopped => true

/-- Heartbeats are on time, and a lock is released when its phase is over. -/
def Enabled (s : State W) : Act W → Prop
  | .start w => (s.worker w).stage = .down
  | .wake w => (s.worker w).stage.isDue s.now = true
  | .load w => (s.worker w).stage = .loading
  | .bid w => (s.worker w).stage.isBidding = true
  | .readDate w => (s.worker w).stage = .leading
  | .check w => (s.worker w).stage.isDated = true
  | .continueCall w _ => (s.worker w).stage.isCalling = true
  | .store w => (s.worker w).stage.isStoring = true
  | .heartbeat w => (s.worker w).stage.isRested s.now = true
  | .stop w | .crash w => (s.worker w).stage ≠ .down ∧ (s.worker w).stage ≠ .stopped
  | .begin w p => canStart cfg w p s = true
  | .finish w p => (s.worker w).running p = true
  | .release w p => s.lock p = some w ∧ (s.worker w).running p = false
  | .expire => True
  | .tick d => ∀ w, (s.worker w).stage.onTime (s.now + d) s.claim w = true

instance [Fintype W] (s : State W) : ∀ act, Decidable (Enabled cfg s act)
  | .start _ | .load _ | .readDate _ => inferInstanceAs (Decidable (_ = _))
  | .wake _ | .bid _ | .check _ | .continueCall _ _ | .store _ | .heartbeat _ | .begin _ _
  | .finish _ _ => inferInstanceAs (Decidable (_ = true))
  | .stop _ | .crash _ => inferInstanceAs (Decidable (_ ≠ _ ∧ _ ≠ _))
  | .release _ _ => inferInstanceAs (Decidable (_ = _ ∧ _ = false))
  | .expire => inferInstanceAs (Decidable True)
  | .tick _ => inferInstanceAs (Decidable (∀ _, _ = true))

def schedulers : Machine (State W) (Act W) := ⟨Enabled cfg, next cfg⟩

instance [Fintype W] (s : State W) (act : Act W) : Decidable ((schedulers cfg).Enabled s act) :=
  inferInstanceAs (Decidable (Enabled cfg s act))

def fresh (now : Nat) : State W := { now := now }

end Sentora.WeeklySync
