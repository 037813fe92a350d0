import Sentora.Compliance.Executors
import Sentora.Sync.RunTotals

/-!
# The freshness of the data

What `sync_freshness` says of the runs that the sync manager has persisted.

A run is persisted with its completion as a text, of which `ensure_utc` asks for the zone of a
date.  From the first completed run on the check does not return.
-/

namespace Sentora.Compliance

open Lib

structure PersistedRun where
  run : Progress.SyncRun
  completedAt : Option Int
  closed : completedAt.isSome = true ↔ run.status = .completed ∨ run.status = .failed

def statusText : Workers.RunStatus → String
  | .running => "running"
  | .completed => "completed"
  | .failed => "failed"
  | .interrupted => "interrupted"

def PersistedRun.id (r : PersistedRun) : String := r.run.id

def PersistedRun.read (py : Python) (r : PersistedRun) : SyncRunDoc where
  status := statusText r.run.status
  completedAt := r.completedAt.map fun t => .text (py.isoformat t)

/-- `_persist_run`, of one run after the other. -/
def persistRuns (runs : List PersistedRun) : Collection PersistedRun.id :=
  Collection.empty.bulkReplace runs

def withRuns (py : Python) (db : Database) (runs : List PersistedRun) : Database :=
  { db with syncRuns := (persistRuns runs).docs.map (PersistedRun.read py) }

def closedRun {crowdStrike : Bool} {data : Progress.PhaseData} {newId : String}
    {m : Progress.Manager} {run : Progress.SyncRun}
    (h : m.closes crowdStrike data newId = some run) (now : Int) : PersistedRun where
  run := run
  completedAt := some now
  closed := by
    obtain ⟨-, -, current, -, rfl⟩ := Progress.closes_eq_some h
    refine iff_of_true rfl ?_
    unfold Progress.Manager.closeRun
    cases m.anyPhaseFailed crowdStrike with
    | true => exact .inr rfl
    | false => exact .inl rfl

def freshnessCutoff (py : Python) (now : Int) (parameters : JsonDict) : Except Raised Int := do
  py.hoursBefore now (← number (parameters.getD "max_hours_since_sync" (.int 24)))

def Fresh (cutoff : Int) (r : PersistedRun) : Prop :=
  r.run.status = .completed ∧ ∃ t, r.completedAt = some t ∧ cutoff ≤ t

/-- `sync_freshness` returns, and passes just where a run is fresh. -/
def JudgesFreshness (py : Python) (now : Int) (db : Database) (runs : List PersistedRun)
    (parameters : JsonDict) (scope : ScopeFilter) : Prop :=
  ∃ cutoff o, freshnessCutoff py now parameters = .ok cutoff ∧
    syncFreshness py now (withRuns py db runs) parameters scope = .ok o ∧
    (o.status = .passed ↔ ∃ r ∈ persistRuns runs, Fresh cutoff r)

section Freshness

variable {py : Python} {now cutoff : Int} {db : Database} {runs : List PersistedRun}
  {parameters : JsonDict} {scope : ScopeFilter} {run : SyncRunDoc} {o : Outcome}

theorem statusText_eq_completed {status : Workers.RunStatus} :
    (statusText status == "completed") = true ↔ status = .completed := by
  cases status with
  | completed => exact iff_of_true rfl rfl
  | running => exact iff_of_false nofun nofun
  | failed => exact iff_of_false nofun nofun
  | interrupted => exact iff_of_false nofun nofun

theorem latestSync_eq_none (h : ∀ run ∈ db.syncRuns, (run.status == "completed") = false) :
    latestSync db = none := by
  have hnone : (db.syncRuns.filter fun run => run.status == "completed") = [] :=
    List.filter_eq_nil_iff.mpr fun run hrun => Bool.eq_false_iff.mp (h run hrun)
  unfold latestSync
  rw [hnone]
  rfl

theorem exists_latestSync (hmem : run ∈ db.syncRuns)
    (hcompleted : (run.status == "completed") = true) :
    ∃ latest ∈ db.syncRuns, latestSync db = some latest := by
  have hin : run ∈ db.syncRuns.filter fun run => run.status == "completed" :=
    List.mem_filter.mpr ⟨hmem, hcompleted⟩
  have hsorted := (mem_sortBy fun run : SyncRunDoc => OrderDual.toDual
    (run.completedAt.elim ⊥ fun t => (t.order : WithBot (String ⊕ₗ Int)))).mpr hin
  cases hlatest : latestSync db with
  | none => exact absurd (List.head?_eq_none_iff.mp hlatest) (List.ne_nil_of_mem hsorted)
  | some latest =>
    have hmem := (mem_sortBy _).mp (List.mem_of_mem_head? hlatest)
    exact ⟨latest, (List.mem_filter.mp hmem).1, rfl⟩

theorem ensureUtc_read (r : PersistedRun) :
    ensureUtc (r.read py).completedAt = .error .attributeError := by
  unfold PersistedRun.read
  cases r.completedAt with
  | none => rfl
  | some t => rfl

theorem syncFreshness_none (hcutoff : freshnessCutoff py now parameters = .ok cutoff)
    (h : latestSync db = none) :
    ∃ o, syncFreshness py now db parameters scope = .ok o ∧ o.status = .failed := by
  obtain ⟨hours, hhours, hdate⟩ := bind_eq_ok.mp hcutoff
  unfold syncFreshness
  simp only [hhours, hdate, ok_bind, h]
  exact ⟨_, rfl, rfl⟩

theorem syncFreshness_raises (hcutoff : freshnessCutoff py now parameters = .ok cutoff)
    (h : latestSync db = some run) (hraises : ensureUtc run.completedAt = .error .attributeError) :
    syncFreshness py now db parameters scope = .error .attributeError := by
  obtain ⟨hours, hhours, hdate⟩ := bind_eq_ok.mp hcutoff
  unfold syncFreshness
  simp only [hhours, hdate, ok_bind, h, hraises]
  rfl

theorem JudgesFreshness.not_completed (h : JudgesFreshness py now db runs parameters scope) :
    ∀ r ∈ persistRuns runs, r.run.status ≠ .completed := by
  obtain ⟨cutoff, o, hcutoff, ho, -⟩ := h
  intro r hr hcompleted
  obtain ⟨latest, hmem, hlatest⟩ := @exists_latestSync (withRuns py db runs) (r.read py)
    (List.mem_map_of_mem hr) (statusText_eq_completed.mpr hcompleted)
  obtain ⟨s, -, rfl⟩ := List.mem_map.mp hmem
  rw [syncFreshness_raises hcutoff hlatest (ensureUtc_read s)] at ho
  cases ho

end Freshness

/-- The check is right about the histories in which no run has completed. -/
theorem judgesFreshness_iff (py : Python) (now : Int) (db : Database) (runs : List PersistedRun)
    (parameters : JsonDict) (scope : ScopeFilter) :
    JudgesFreshness py now db runs parameters scope ↔
      (∃ cutoff, freshnessCutoff py now parameters = .ok cutoff) ∧
        ∀ r ∈ persistRuns runs, r.run.status ≠ .completed := by
  constructor
  · intro h
    obtain ⟨cutoff, o, hcutoff, -⟩ := id h
    exact ⟨⟨cutoff, hcutoff⟩, h.not_completed⟩
  · rintro ⟨⟨cutoff, hcutoff⟩, hnone⟩
    have hlatest : latestSync (withRuns py db runs) = none := by
      refine latestSync_eq_none fun run hrun => ?_
      obtain ⟨r, hr, rfl⟩ := List.mem_map.mp hrun
      exact Bool.eq_false_iff.mpr fun h => hnone r hr (statusText_eq_completed.mp h)
    obtain ⟨o, ho, hfailed⟩ :=
      @syncFreshness_none py now cutoff (withRuns py db runs) parameters scope hcutoff hlatest
    refine ⟨cutoff, o, hcutoff, ho, iff_of_false ?_ ?_⟩
    · rw [hfailed]
      exact nofun
    · rintro ⟨r, hr, hcompleted, -⟩
      exact hnone r hr hcompleted

/-- A run that has just completed. -/
theorem completed_run_raises :
    ¬∀ (py : Python) (now : Int) (db : Database) (runs : List PersistedRun)
      (parameters : JsonDict) (scope : ScopeFilter),
        JudgesFreshness py now db runs parameters scope := by
  intro h
  exact (h plainPython 0 {} [⟨⟨"r", .completed, none, fun _ => {}⟩, some 0, by decide⟩] .empty
    .all).not_completed _ List.mem_cons_self rfl

end Sentora.Compliance
