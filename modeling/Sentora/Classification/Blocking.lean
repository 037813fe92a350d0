import Sentora.Classification.Coverage
import Sentora.Classification.Manager
import Sentora.Eol.Sync

/-!
# Jobs that stay blocked

Whether a classification or an EOL sync that fails leaves its flag or its lock behind.

The flags are set before the record of the run is written, and are cleared by what is started
behind that.  A lock document that cannot be deleted stays until it expires.
-/

namespace Sentora.Classification

open Lib

structure Jobs (F : Type) where
  site : Site F
  eol : Eol.SyncState

inductive JobRequest (F : Type) where
  | trigger (label : String) (uuid : Nat) (fails : TriggerFailures) (elapsed : Nat) (fate : Fate)
  | syncEol (fails : Eol.SyncFailures)
  /-- Time passes, and other workers take the lock or leave it. -/
  | pass (elapsed : Nat) (fate : Fate)
  | change (database : Database F)

section Jobs

variable {F : Type}

def Jobs.perform [DecidableEq F] (k : Worker) (e : Engine F) (j : Jobs F) : JobRequest F → Jobs F
  | .trigger label uuid fails elapsed fate =>
    { j with site := j.site.triggerAndRun k e label uuid fails elapsed fate }
  | .syncEol fails => { j with eol := (j.eol.syncEolData fails).1 }
  | .pass elapsed fate => { j with site := j.site.pass k elapsed fate }
  | .change database => { j with site := { j.site with database } }

def Jobs.performs [DecidableEq F] (k : Worker) (e : Engine F) (j : Jobs F)
    (requests : List (JobRequest F)) : Jobs F :=
  requests.foldl (Jobs.perform k e) j

def Jobs.initial (k : Worker) (database : Database F) (now : Nat) (lock : Option LockDoc) :
    Jobs F where
  site := { database, now, lock := lock.filter k.isOther, manager := {} }
  eol := {}

/-- The lock document is that of an owner of the worker, and has not expired. -/
def Site.Held (k : Worker) (s : Site F) : Prop :=
  ∃ d, s.lock = some d ∧ d.ownerId.pid = k.pid ∧ s.now ≤ d.expiresAt

/-- The flag is not set, no lock is held and no task refreshes it. -/
structure Site.Free (k : Worker) (s : Site F) : Prop where
  running : s.manager.running = false
  distLock : s.manager.distLock = none
  heartbeat : s.manager.heartbeat = none
  lock : ¬s.Held k

/-- No flag is set and no lock is held, so that without failures a trigger starts a run, unless
another worker holds the lock, and an EOL sync is made. -/
structure Unblocked (k : Worker) (j : Jobs F) : Prop where
  free : j.site.Free k
  eol : j.eol.syncRunning = false
  starts : (∀ d, j.site.lock = some d → d.expiresAt < j.site.now) → ∀ label uuid,
    ∃ runId, (j.site.trigger k label uuid {}).2 = .started runId
  syncs : (j.eol.syncEolData {}).2 = some "completed"

def takingWrite (fails : TriggerFailures) (s : Site F) : Option Ending :=
  match s.lock with
  | none => some fails.insertLock
  | some d =>
    if fails.insertLock.raised then none
    else if d.expiresAt < s.now then some fails.takeOverLock else none

def Lapses (s : Site F) (elapsed : Nat) : Fate → Prop
  | .kept expiresAt => expiresAt < s.now + elapsed
  | .changed _ => True

/-- The lock is not taken by a write that raises, and if there is a run then its record is
written and its lock is deleted or has lapsed. -/
structure SafeTrigger (k : Worker) (s : Site F) (fails : TriggerFailures) (elapsed : Nat)
    (fate : Fate) : Prop where
  acquire : k.enableDistributedLocks = true → takingWrite fails s ≠ some (.raises true)
  run : (k.enableDistributedLocks = true → takingWrite fails s = some .done) →
    fails.saveRun = .done ∧
      (k.enableDistributedLocks = true →
        fails.deleteLock.isApplied = true ∨ Lapses s elapsed fate)

/-- The steps that a request has before its cleaning up do not raise, nor does the cleaning up. -/
def Safe (k : Worker) (j : Jobs F) : JobRequest F → Prop
  | .trigger _ _ fails elapsed fate => SafeTrigger k j.site fails elapsed fate
  | .syncEol fails => fails.insertRun = .done ∧ fails.broadcast = false
  | .pass _ _ => True
  | .change _ => True

end Jobs

section Triggers

variable {F : Type} {k : Worker} {s : Site F} {fails : TriggerFailures} {uuid elapsed : Nat}
  {fate : Fate} {label : String}

theorem acquire_eq {owner : Owner} :
    s.acquire owner fails =
      match takingWrite fails s with
      | none => (s, false)
      | some ending => s.writeLock owner ending := by
  unfold Site.acquire takingWrite
  cases s.lock with
  | none => rfl
  | some d =>
    dsimp only
    split
    · rfl
    · split
      · rfl
      · rfl

theorem not_held_pass (hheartbeat : s.manager.heartbeat = none) (h : ¬s.Held k) :
    ¬(s.pass k elapsed fate).Held k := by
  intro ⟨d, hd, hpid, hlive⟩
  cases fate with
  | kept expiresAt =>
    have hsame : (s.pass k elapsed (.kept expiresAt)).lock = s.lock := by
      unfold Site.pass
      simp only [hheartbeat, reduceCtorEq, if_false, Option.map_id']
    rw [hsame] at hd
    exact h ⟨d, hd, hpid, Nat.le_trans (Nat.le_add_right ..) hlive⟩
  | changed doc =>
    have hother := Option.filter_eq_some_iff.mp hd
    exact absurd hpid (bne_iff_ne.mp hother.2)

theorem free_pass (h : s.Free k) : (s.pass k elapsed fate).Free k :=
  ⟨h.running, h.distLock, h.heartbeat, not_held_pass h.heartbeat h.lock⟩

def Site.locked (owner : Owner) (s : Site F) : Site F :=
  { s with
    lock := some (lockDocOf owner s.now)
    manager := { s.manager with distLock := some owner, heartbeat := some owner } }

theorem acquireDistLock_eq (h : k.enableDistributedLocks = true) :
    s.acquireDistLock k uuid fails =
      match takingWrite fails s with
      | none => (s, false)
      | some .done => (s.locked ⟨k.pid, uuid⟩, true)
      | some (.raises true) => ({ s with lock := some (lockDocOf ⟨k.pid, uuid⟩ s.now) }, false)
      | some (.raises false) => (s, false) := by
  unfold Site.acquireDistLock
  rw [if_pos h]
  dsimp only
  rw [acquire_eq]
  cases takingWrite fails s with
  | none => rfl
  | some ending =>
    cases ending with
    | done => rfl
    | raises applied =>
      cases applied with
      | false => rfl
      | true => rfl

theorem safeTrigger_of_not_taken (hlocks : k.enableDistributedLocks = true)
    (hdone : takingWrite fails s ≠ some .done)
    (hraises : takingWrite fails s ≠ some (.raises true)) :
    SafeTrigger k s fails elapsed fate :=
  ⟨fun _ => hraises, fun hwon => absurd (hwon hlocks) hdone⟩

section Tasks

variable [DecidableEq F] {e : Engine F} {runId : Nat}

theorem runTask_unlocked (h : s.manager.distLock = none) :
    s.runTask k e fails elapsed fate runId =
      { s.pass k elapsed fate with
        database := runClassification e fails.toFailures runId s.database
        manager := { heartbeat := s.manager.heartbeat } } := by
  unfold Site.runTask Site.releaseDistLock
  dsimp only
  rw [show (s.pass k elapsed fate).manager.distLock = none from h]
  rfl

theorem runTask_locked {owner : Owner} (h : s.manager.distLock = some owner) :
    s.runTask k e fails elapsed fate runId =
      { database := runClassification e fails.toFailures runId s.database
        now := s.now + elapsed
        lock :=
          if fails.deleteLock.isApplied then
            (s.pass k elapsed fate).lock.filter fun d => d.ownerId != owner
          else (s.pass k elapsed fate).lock
        manager := {} } := by
  unfold Site.runTask Site.releaseDistLock
  dsimp only
  rw [show (s.pass k elapsed fate).manager.distLock = some owner from h]
  rfl

theorem free_runTask (hdistLock : s.manager.distLock = none)
    (hheartbeat : s.manager.heartbeat = none) (hlock : ¬s.Held k) :
    (s.runTask k e fails elapsed fate runId).Free k := by
  rw [runTask_unlocked hdistLock]
  exact ⟨rfl, rfl, hheartbeat, not_held_pass hheartbeat hlock⟩

theorem free_runTask_locked_iff {owner : Owner} (hpid : owner.pid = k.pid)
    (hlock : s.lock = some (lockDocOf owner s.now)) (hdistLock : s.manager.distLock = some owner)
    (hheartbeat : s.manager.heartbeat = some owner) :
    (s.runTask k e fails elapsed fate runId).Free k ↔
      fails.deleteLock.isApplied = true ∨ Lapses s elapsed fate := by
  rw [runTask_locked hdistLock]
  cases fate with
  | kept expiresAt =>
    have hkept : (s.pass k elapsed (.kept expiresAt)).lock =
        some { lockDocOf owner s.now with expiresAt } := by
      unfold Site.pass
      simp only [hlock, hheartbeat, Option.map_some]
      exact congrArg some (if_pos rfl)
    have hgone : (some { lockDocOf owner s.now with expiresAt }).filter
        (fun d : LockDoc => d.ownerId != owner) = none :=
      Option.filter_some_neg (by simp [lockDocOf])
    rw [hkept, hgone]
    constructor
    · intro hfree
      by_contra hnone
      rw [not_or] at hnone
      exact hfree.lock ⟨_, if_neg hnone.1, hpid, not_lt.mp hnone.2⟩
    · intro hsafe
      refine ⟨rfl, rfl, rfl, fun ⟨d, hd, _, hlive⟩ => ?_⟩
      dsimp only at hd hlive
      split at hd
      · cases hd
      · rename_i hdeleted
        cases hd
        exact absurd (hsafe.resolve_left hdeleted) (not_lt.mpr hlive)
  | changed doc =>
    refine iff_of_true ⟨rfl, rfl, rfl, fun ⟨d, hd, hmine, _⟩ => ?_⟩ (Or.inr trivial)
    have hmem : d ∈ doc.filter k.isOther := by
      dsimp only at hd
      split at hd
      · exact (Option.filter_eq_some_iff.mp hd).1
      · exact hd
    exact absurd hmine (bne_iff_ne.mp (Option.filter_eq_some_iff.mp hmem).2)

def Site.saving (label : String) (fails : TriggerFailures) (s : Site F) : Site F :=
  { s with
    database := if fails.saveRun.isApplied then saveRun label s.database else s.database
    manager := { s.manager with running := true, currentRunId := some (newRunId s.database) } }

theorem triggerAndRun_of_not_acquired {s' : Site F} (hrunning : s.manager.running = false)
    (h : s.acquireDistLock k uuid fails = (s', false)) :
    s.triggerAndRun k e label uuid fails elapsed fate = s' := by
  unfold Site.triggerAndRun Site.trigger
  rw [hrunning, h]
  rfl

/-- A run that starts leaves nothing if and only if its record is written and what is started
behind that leaves nothing. -/
theorem free_triggerAndRun_of_acquired {s' : Site F} {safe : Prop}
    (hrunning : s.manager.running = false) (h : s.acquireDistLock k uuid fails = (s', true))
    (hrun :
      ((s'.saving label fails).runTask k e fails elapsed fate (newRunId s'.database)).Free k ↔
        safe) :
    (s.triggerAndRun k e label uuid fails elapsed fate).Free k ↔
      fails.saveRun = .done ∧ safe := by
  have hstart : s.trigger k label uuid fails =
      (s'.saving label fails,
        if fails.saveRun.raised then .raised else .started (newRunId s'.database)) := by
    unfold Site.trigger
    rw [hrunning, h]
    rfl
  unfold Site.triggerAndRun
  rw [hstart]
  cases hsave : fails.saveRun with
  | done =>
    rw [show Ending.done.raised = false from rfl, if_neg Bool.false_ne_true]
    exact hrun.trans (and_iff_right rfl).symm
  | raises applied =>
    -- Nothing is started that clears the flag.
    rw [show (Ending.raises applied).raised = true from rfl, if_pos rfl]
    refine iff_of_false (fun hfree => ?_) (fun hsafe => nomatch hsafe.1)
    exact Bool.false_ne_true hfree.running.symm

theorem free_triggerAndRun_iff (h : s.Free k) :
    (s.triggerAndRun k e label uuid fails elapsed fate).Free k ↔
      SafeTrigger k s fails elapsed fate := by
  cases hlocks : k.enableDistributedLocks with
  | false =>
    have hoff : ¬k.enableDistributedLocks = true := Bool.eq_false_iff.mp hlocks
    have hacquire : s.acquireDistLock k uuid fails = (s, true) := if_neg hoff
    have hrun : ((s.saving label fails).runTask k e fails elapsed fate
        (newRunId s.database)).Free k := free_runTask h.distLock h.heartbeat h.lock
    rw [free_triggerAndRun_of_acquired h.running hacquire (iff_true_intro hrun), and_true]
    constructor
    · intro hsave
      exact ⟨fun hon => absurd hon hoff, fun _ => ⟨hsave, fun hon => absurd hon hoff⟩⟩
    · intro hsafe
      exact (hsafe.run fun hon => absurd hon hoff).1
  | true =>
    have hacquire := @acquireDistLock_eq F k s fails uuid hlocks
    match hwrite : takingWrite fails s with
    | none =>
      rw [hwrite] at hacquire
      rw [triggerAndRun_of_not_acquired h.running hacquire]
      refine iff_of_true h (safeTrigger_of_not_taken hlocks ?_ ?_)
      · exact hwrite ▸ nofun
      · exact hwrite ▸ nofun
    | some (.raises false) =>
      rw [hwrite] at hacquire
      rw [triggerAndRun_of_not_acquired h.running hacquire]
      refine iff_of_true h (safeTrigger_of_not_taken hlocks ?_ ?_)
      · exact hwrite ▸ nofun
      · exact hwrite ▸ nofun
    | some (.raises true) =>
      -- The document is there, and nobody will release it.
      rw [hwrite] at hacquire
      rw [triggerAndRun_of_not_acquired h.running hacquire]
      refine iff_of_false (fun hfree => ?_) (fun hsafe => hsafe.acquire hlocks hwrite)
      exact hfree.lock ⟨_, rfl, rfl, Nat.le_add_right ..⟩
    | some .done =>
      rw [hwrite] at hacquire
      have hrun := @free_runTask_locked_iff F k
        ((s.locked ⟨k.pid, uuid⟩).saving label fails) fails elapsed fate _ e
        (newRunId s.database) ⟨k.pid, uuid⟩ rfl rfl rfl rfl
      rw [free_triggerAndRun_of_acquired h.running hacquire hrun]
      constructor
      · intro ⟨hsave, hdeleted⟩
        exact ⟨fun _ => hwrite ▸ nofun, fun _ => ⟨hsave, fun _ => hdeleted⟩⟩
      · intro hsafe
        obtain ⟨hsave, hdeleted⟩ := hsafe.run fun _ => hwrite
        exact ⟨hsave, hdeleted hlocks⟩

end Tasks

end Triggers

section Runs

variable {F : Type} {k : Worker} {j : Jobs F}

theorem syncRunning_syncEolData_iff {s : Eol.SyncState} {fails : Eol.SyncFailures}
    (h : s.syncRunning = false) :
    (s.syncEolData fails).1.syncRunning = false ↔
      fails.insertRun = .done ∧ fails.broadcast = false := by
  have hset : ∀ ending, (({ s with syncRunning := true } : Eol.SyncState).insertRun
      ending).syncRunning = true := by
    intro ending
    unfold Eol.SyncState.insertRun
    split
    · rfl
    · rfl
  unfold Eol.SyncState.syncEolData
  rw [h, if_neg Bool.false_ne_true]
  cases hinsert : fails.insertRun with
  | raises applied =>
    refine iff_of_false (fun hfree => ?_) (fun hsafe => nomatch hsafe.1)
    exact Bool.false_ne_true (hfree.symm.trans (hset _))
  | done =>
    cases hbroadcast : fails.broadcast with
    | true =>
      refine iff_of_false (fun hfree => ?_) (fun hsafe => nomatch hsafe.2)
      exact Bool.false_ne_true (hfree.symm.trans (hset _))
    | false => exact iff_of_true rfl ⟨rfl, rfl⟩

theorem takingWrite_of_expired {s : Site F} (h : ∀ d, s.lock = some d → d.expiresAt < s.now) :
    takingWrite {} s = some .done := by
  unfold takingWrite
  cases hlock : s.lock with
  | none => rfl
  | some d => exact if_pos (h d hlock)

theorem starts_of_free {s : Site F} (hfree : s.Free k)
    (hlock : ∀ d, s.lock = some d → d.expiresAt < s.now) (label : String) (uuid : Nat) :
    ∃ runId, (s.trigger k label uuid {}).2 = .started runId := by
  have hacquire : ∃ s', s.acquireDistLock k uuid {} = (s', true) := by
    cases hlocks : k.enableDistributedLocks with
    | false =>
      refine ⟨s, ?_⟩
      unfold Site.acquireDistLock
      rw [hlocks]
      rfl
    | true =>
      refine ⟨s.locked ⟨k.pid, uuid⟩, ?_⟩
      rw [acquireDistLock_eq hlocks, takingWrite_of_expired hlock]
  obtain ⟨s', hacquire⟩ := hacquire
  refine ⟨newRunId s'.database, ?_⟩
  unfold Site.trigger
  rw [hfree.running, hacquire]
  rfl

theorem syncs_of_free {s : Eol.SyncState} (h : s.syncRunning = false) :
    (s.syncEolData {}).2 = some "completed" := by
  unfold Eol.SyncState.syncEolData
  rw [h]
  rfl

theorem unblocked_iff : Unblocked k j ↔ j.site.Free k ∧ j.eol.syncRunning = false := by
  constructor
  · intro h
    exact ⟨h.free, h.eol⟩
  · intro ⟨hfree, heol⟩
    exact ⟨hfree, heol, starts_of_free hfree, syncs_of_free heol⟩

theorem unblocked_initial {database : Database F} {now : Nat} {lock : Option LockDoc} :
    Unblocked k (Jobs.initial k database now lock) := by
  refine unblocked_iff.mpr ⟨⟨rfl, rfl, rfl, fun ⟨d, hd, hpid, _⟩ => ?_⟩, rfl⟩
  exact absurd hpid (bne_iff_ne.mp (Option.filter_eq_some_iff.mp hd).2)

theorem unblocked_perform_iff [DecidableEq F] {e : Engine F} (h : Unblocked k j)
    (request : JobRequest F) : Unblocked k (j.perform k e request) ↔ Safe k j request := by
  rw [unblocked_iff]
  cases request with
  | trigger label uuid fails elapsed fate =>
    exact (and_iff_left h.eol).trans (free_triggerAndRun_iff h.free)
  | syncEol fails => exact (and_iff_right h.free).trans (syncRunning_syncEolData_iff h.eol)
  | pass elapsed fate => exact iff_of_true ⟨free_pass h.free, h.eol⟩ trivial
  | change database =>
    have hsite := h.free
    exact iff_of_true
      ⟨⟨hsite.running, hsite.distLock, hsite.heartbeat, hsite.lock⟩, h.eol⟩ trivial

end Runs

/-- From the start of a worker no job is ever blocked if and only if no request has a failure
between the setting of a flag and what clears it, or leaves the lock. -/
theorem never_blocked_iff {F : Type} [DecidableEq F] (k : Worker) (e : Engine F)
    (database : Database F) (now : Nat) (lock : Option LockDoc)
    (requests : List (JobRequest F)) :
    (∀ n, Unblocked k ((Jobs.initial k database now lock).performs k e (requests.take n))) ↔
      AllMeet (Jobs.perform k e) (Safe k) (Jobs.initial k database now lock) requests := by
  have hstep : ∀ (j : Jobs F) request, Unblocked k j →
      (Unblocked k (j.perform k e request) ↔ Safe k j request) :=
    fun _ request h => unblocked_perform_iff h request
  exact forall_take_iff_allMeet hstep unblocked_initial

/-- A run whose record is not written leaves the flag and the lock. -/
theorem unsaved_run_blocks :
    ¬Unblocked ⟨1, true⟩
      ((Jobs.initial ⟨1, true⟩ emptyResults 0 none).performs ⟨1, true⟩ plainEngine
        [.trigger "manual" 7 { saveRun := .raises false } 60 (.kept 3600)]) :=
  fun h => Bool.false_ne_true h.free.running.symm

end Sentora.Classification
