import Mathlib.Order.Monotone.Basic
import Sentora.CrowdStrike.Documents
import Sentora.Lib.Paging

/-!
# Phase runners

The state that a sync phase reads and writes, its checkpoints, and how a phase is
triggered and resumed (`domains/sync/phase_runner.py`).

A phase is a process whose steps are the calls to the database and to the API of
the source.  An exception and a cancellation write nothing but the status of the
runner, so that both leave the state that a crash at the same step leaves.
-/

namespace Sentora.Sync

open Lib Process

inductive Mode where
  | auto | full | incremental
deriving DecidableEq

/-- A document of `sync_checkpoint`. -/
structure Checkpoint where
  lastId : Option Nat := none
  synced : Nat := 0
  total : Nat := 0
  mode : Option Mode := none
  resumeTimestamp : Option Nat := none
  status : Option String := none
deriving DecidableEq

/-- A document of `sync_meta`. -/
structure SyncMeta where
  sitesSyncedAt : Option Nat := none
  groupsSyncedAt : Option Nat := none
  agentsSyncedAt : Option Nat := none
  appsSyncedAt : Option Nat := none
  tagsSyncedAt : Option Nat := none
  maxAppId : Option Nat := none
deriving DecidableEq

def S1App.number (s1App : S1App) : Nat := s1App.id.getD 0

/-- What the SentinelOne API lists, each listing ordered by id. -/
structure S1Source where
  sites : List S1Site
  groups : List S1Group
  agents : List S1Agent
  apps : List S1App
  tags : List S1Tag
  decommissioned : List (Nat × Nat)
  sites_sorted : sites.Pairwise fun x y => x.id < y.id
  groups_sorted : groups.Pairwise fun x y => x.id < y.id
  agents_sorted : agents.Pairwise fun x y => x.id < y.id
  apps_sorted : apps.Pairwise fun x y => x.number < y.number
  tags_sorted : tags.Pairwise fun x y => x.id < y.id
  decommissioned_sorted : decommissioned.Pairwise fun x y => x.1 < y.1

/-- What the CrowdStrike API lists, in the order in which it is scrolled, and the
batches in which it answers. -/
structure CsSource where
  hosts : List CrowdStrike.CsHost
  apps : List CrowdStrike.CsApp
  groups : List CrowdStrike.CsGroup
  hostSplit : Split CrowdStrike.CsHost
  appSplit : Split CrowdStrike.CsApp

/-- The readings of the clock, each later than the one before. -/
structure Clock where
  time : Nat → Nat
  ticks : StrictMono time

inductive ApiError where
  | rateLimit
  | api
deriving DecidableEq

inductive CsError where
  | rateLimit
  | api
  | discoverNotLicensed
deriving DecidableEq

/-- The database, the sources, the clock with the number of its readings, and the
failures of what is to come: the calls for applications, and the updates of the
names on the agents. -/
structure World where
  sites : Collection SiteDoc.id
  groups : Collection GroupDoc.id
  agents : Collection AgentDoc.id
  installedApps : Collection AppDoc.id
  sourceTags : Collection TagDoc.id
  syncMeta : String → SyncMeta
  checkpoints : String → Option Checkpoint
  pageSizeAgents : Nat
  pageSizeApps : Nat
  pageSizeAgents_pos : 0 < pageSizeAgents
  pageSizeApps_pos : 0 < pageSizeApps
  s1 : S1Source
  cs : CsSource
  clock : Clock
  readings : Nat
  faults : List (Option ApiError)
  csFaults : List (Option CsError)
  nameFaults : List Bool

namespace World

def now (w : World) : Nat := w.clock.time w.readings

def setCheckpoint (phase : String) (checkpoint : Option Checkpoint) (w : World) : World :=
  { w with checkpoints := Function.update w.checkpoints phase checkpoint }

def updateMeta (key : String) (update : SyncMeta → SyncMeta) (w : World) : World :=
  { w with syncMeta := Function.update w.syncMeta key (update (w.syncMeta key)) }

end World

inductive CollectionName where
  | sites | groups | agents | installedApps | sourceTags
deriving DecidableEq

inductive SyncOp where
  | loadCheckpoint
  | saveCheckpoint
  | clearCheckpoint
  | clock
  | config
  | find (name : CollectionName)
  | write (name : CollectionName)
  | loadMeta
  | updateMeta
  | api (path : String)
deriving DecidableEq

/-- Why a phase does not complete: more pages than a run is given, an error of the
API, or a bulk write with a rejected operation. -/
inductive SyncError where
  | unfinished
  | api (e : ApiError)
  | csApi (e : CsError)
  | bulkWrite
deriving DecidableEq

abbrev Phase := ExceptT SyncError (Process World SyncOp)

def loadCheckpoint (phase : String) : Phase (Option Checkpoint) :=
  liftM (Process.read SyncOp.loadCheckpoint fun w : World => w.checkpoints phase)

def saveCheckpoint (phase : String) (checkpoint : Checkpoint) : Phase Unit :=
  liftM (Process.write SyncOp.saveCheckpoint (World.setCheckpoint phase (some checkpoint)))

def clearCheckpoint (phase : String) : Phase Unit :=
  liftM (Process.write SyncOp.clearCheckpoint (World.setCheckpoint phase none))

def utcNow : Phase Nat :=
  liftM (Process.atomic SyncOp.clock fun w : World =>
    ({ w with readings := w.readings + 1 }, w.now))

def loadMeta (key : String) : Phase SyncMeta :=
  liftM (Process.read SyncOp.loadMeta fun w : World => w.syncMeta key)

def updateMeta (key : String) (update : SyncMeta → SyncMeta) : Phase Unit :=
  liftM (Process.write SyncOp.updateMeta (World.updateMeta key update))

/-- What `_execute` is called with. -/
structure RunArgs where
  mode : Mode
  isResume : Bool := false
  checkpoint : Option Checkpoint := none

/-- `_safe_run`, where nothing fails. -/
def safeRun (phase : String) (execute : RunArgs → Phase Unit) (args : RunArgs) : Phase Unit := do
  execute args
  clearCheckpoint phase

/-- `resume`.  Without a checkpoint nothing is run. -/
def resume (phase : String) (execute : RunArgs → Phase Unit) : Phase Unit := do
  match ← loadCheckpoint phase with
  | none => pure ()
  | some checkpoint =>
    if checkpoint.status = some "completed" then clearCheckpoint phase
    else safeRun phase execute ⟨checkpoint.mode.getD .full, true, some checkpoint⟩

/-- `trigger`, which resumes a run that left a checkpoint. -/
def trigger (phase : String) (execute : RunArgs → Phase Unit) (mode : Mode) : Phase Unit := do
  match ← loadCheckpoint phase with
  | none => safeRun phase execute { mode := mode }
  | some checkpoint =>
    if checkpoint.status = some "completed" then safeRun phase execute { mode := mode }
    else resume phase execute

/-- The mode of a run, where `auto` looks at the time of the last one. -/
def resolveMode (mode : Mode) (lastSyncAt : Option Nat) : Mode :=
  match mode with
  | .auto => if lastSyncAt.isNone then .full else .incremental
  | mode => mode

def RunArgs.mismatch (args : RunArgs) (mode : Mode) (checkpoint : Checkpoint) : Bool :=
  args.isResume && checkpoint.mode.any fun cpMode => cpMode ≠ mode

def checkMode (phase : String) (mode : Mode) (args : RunArgs) : Phase (Option Checkpoint) := do
  match args.checkpoint with
  | none => pure none
  | some checkpoint =>
    if args.mismatch mode checkpoint then do
      clearCheckpoint phase
      pure none
    else pure (some checkpoint)

/-- What `_execute` is called with when the phase is triggered. -/
def startArgs (phase : String) (mode : Mode) (w : World) : RunArgs :=
  match w.checkpoints phase with
  | none => { mode := mode }
  | some checkpoint =>
    if checkpoint.status = some "completed" then { mode := mode }
    else ⟨checkpoint.mode.getD .full, true, some checkpoint⟩

/-- The checkpoint that `checkMode` leaves. -/
def RunArgs.usable (args : RunArgs) (mode : Mode) : Option Checkpoint :=
  args.checkpoint.filter fun checkpoint => !args.mismatch mode checkpoint

theorem RunArgs.usable_eq_some {args : RunArgs} {mode : Mode} {c : Checkpoint}
    (hc : args.checkpoint = some c) (hmode : c.mode = some mode) : args.usable mode = some c := by
  refine Option.filter_eq_some_iff.mpr ⟨hc, ?_⟩
  unfold mismatch
  rw [hmode]
  simp

section Start

variable {phase : String} {execute : RunArgs → Phase Unit} {mode : Mode} {w w' : World}

theorem World.setCheckpoint_self : w.setCheckpoint phase (w.checkpoints phase) = w := by
  unfold setCheckpoint
  rw [Function.update_eq_self]

@[simp] theorem World.setCheckpoint_checkpoints (c : Option Checkpoint) :
    (w.setCheckpoint phase c).checkpoints phase = c :=
  Function.update_self ..

theorem returns_trigger :
    Returns (trigger phase execute mode) w () w' ↔
      Returns (safeRun phase execute (startArgs phase mode w)) w () w' := by
  have hload : ∀ c v, Returns (loadCheckpoint phase) w c v ↔ c = w.checkpoints phase ∧ v = w := by
    intro c v
    unfold loadCheckpoint
    rw [returns_lift, run_read, Prod.mk.injEq, eq_comm, and_comm, eq_comm (a := v)]
    exact and_congr_left fun _ => eq_comm
  unfold trigger resume startArgs
  rw [returns_bind_of_still hload]
  cases hcheckpoint : w.checkpoints phase with
  | none => simp
  | some checkpoint =>
    by_cases hstatus : checkpoint.status = some "completed"
    · simp [hstatus]
    · simp only [exists_eq_left, if_neg hstatus]
      rw [returns_bind_of_still hload, hcheckpoint]
      simp only [exists_eq_left, if_neg hstatus]

theorem returns_checkMode (phase : String) (mode : Mode) (args : RunArgs) (w : World) :
    ∃ c, Returns (checkMode phase mode args) w (args.usable mode) (w.setCheckpoint phase c) := by
  unfold checkMode RunArgs.usable
  cases args.checkpoint with
  | none =>
    refine ⟨w.checkpoints phase, returns_pure.mpr ⟨rfl, ?_⟩⟩
    exact World.setCheckpoint_self
  | some checkpoint =>
    dsimp only
    by_cases hother : args.mismatch mode checkpoint = true
    · rw [if_pos hother]
      refine ⟨none, returns_bind.mpr ⟨(), _, returns_lift.mpr rfl, returns_pure.mpr ⟨?_, rfl⟩⟩⟩
      simp [hother]
    · rw [if_neg hother]
      refine ⟨w.checkpoints phase, returns_pure.mpr ⟨?_, World.setCheckpoint_self⟩⟩
      simp [hother]

/-! The same for what a run keeps. -/

variable {I : World → Prop} {Q : World → Unit → Prop} {E : World → SyncError → Prop}

theorem endures_utcNow (htick : I w → I { w with readings := w.readings + 1 }) :
    EnduresOr Eq I (fun t startedAt => t = { w with readings := w.readings + 1 } ∧
      startedAt = w.now)
      E w utcNow := by
  refine enduresOr_atomic ?_
  rintro _ rfl hI
  exact ⟨htick hI, rfl, rfl⟩

theorem endures_read {α : Type} (op : SyncOp) (f : World → α) :
    EnduresOr Eq I (fun t a => t = w ∧ a = f w) E w (liftM (Process.read op f) : Phase α) := by
  refine enduresOr_atomic ?_
  rintro _ rfl hI
  exact ⟨hI, rfl, rfl⟩

theorem endures_checkMode (hclear : I w → I (w.setCheckpoint phase none)) (args : RunArgs) :
    EnduresOr Eq I
      (fun t c => (t = w ∨ t = w.setCheckpoint phase none) ∧ c = args.usable mode) E w
      (checkMode phase mode args) := by
  unfold checkMode RunArgs.usable
  cases args.checkpoint with
  | none => exact enduresOr_pure ⟨Or.inl rfl, rfl⟩
  | some checkpoint =>
    dsimp only
    by_cases hother : args.mismatch mode checkpoint = true
    · rw [if_pos hother]
      have hcleared : EnduresOr Eq I (fun t (_ : Unit) => t = w.setCheckpoint phase none) E w
          (clearCheckpoint phase) := by
        refine enduresOr_atomic ?_
        rintro _ rfl hI
        exact ⟨hclear hI, rfl⟩
      refine hcleared.bind ?_
      rintro t - rfl
      refine enduresOr_pure ⟨Or.inr rfl, ?_⟩
      rw [Option.filter_some, if_neg (by simp [hother])]
    · rw [if_neg hother]
      refine enduresOr_pure ⟨Or.inl rfl, ?_⟩
      rw [Option.filter_some, if_pos (by simp [hother])]

theorem endures_trigger
    (h : EnduresOr Eq I Q E w (safeRun phase execute (startArgs phase mode w))) :
    EnduresOr Eq I Q E w (trigger phase execute mode) := by
  have hload : EnduresOr Eq I (fun t c => t = w ∧ c = w.checkpoints phase) E w
      (loadCheckpoint phase) := endures_read _ _
  unfold startArgs at h
  refine hload.bind ?_
  rintro t checkpoint ⟨rfl, rfl⟩
  cases hcheckpoint : t.checkpoints phase with
  | none =>
    rw [hcheckpoint] at h
    exact h
  | some c =>
    rw [hcheckpoint] at h
    dsimp only at h ⊢
    by_cases hstatus : c.status = some "completed"
    · rw [if_pos hstatus] at h ⊢
      exact h
    · rw [if_neg hstatus] at h ⊢
      refine hload.bind ?_
      rintro t' checkpoint ⟨rfl, rfl⟩
      rw [hcheckpoint]
      dsimp only
      rw [if_neg hstatus]
      exact h

end Start

/-- Runs that were cut off after so many steps each. -/
def interrupted (program : Phase Unit) (cuts : List Nat) (w : World) : World :=
  cuts.foldl (fun w n => Process.cut n program.run w) w

def S1Source.empty : S1Source :=
  ⟨[], [], [], [], [], [], .nil, .nil, .nil, .nil, .nil, .nil⟩

def CsSource.empty : CsSource := ⟨[], [], [], .whole, .whole⟩

/-- An empty database, with the default page sizes. -/
def World.fresh (s1 : S1Source) (cs : CsSource) : World where
  sites := .empty
  groups := .empty
  agents := .empty
  installedApps := .empty
  sourceTags := .empty
  syncMeta _ := {}
  checkpoints _ := none
  pageSizeAgents := 500
  pageSizeApps := 500
  pageSizeAgents_pos := by decide
  pageSizeApps_pos := by decide
  s1 := s1
  cs := cs
  clock := ⟨fun n => n, strictMono_id⟩
  readings := 0
  faults := []
  csFaults := []
  nameFaults := []

end Sentora.Sync
