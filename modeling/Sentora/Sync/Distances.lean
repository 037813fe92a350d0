import Sentora.Sync.Schedules

/-!
# The distance of scheduled runs

When two runs of a phase that the schedulers start are an interval apart.

A scheduler counts its own runs: the time from which it counts is not before the last of them.
It does not count the runs of another worker that has become the leader in the meantime.
-/

namespace Sentora.Schedules

open Lib Locks LeaderElection

variable {W : Type} {cfg : Settings} {now now' : Nat} {runs : List (W × Nat)} {v w : W}

def Unstarted (runs : List (W × Nat)) (w : W) : Prop := ∀ t, (w, t) ∉ runs

/-- No run of the worker is later than `base`. -/
def Covers (runs : List (W × Nat)) (w : W) (base : Nat) : Prop := ∀ t, (w, t) ∈ runs → t ≤ base

/-- The interval is over that is counted from `base`. -/
def Counts (cfg : Settings) (now : Nat) (runs : List (W × Nat)) (w : W) : Option Nat → Prop
  | none => Unstarted runs w
  | some base => base + cfg.interval ≤ now ∧ Covers runs w base

def Stage.Sound (cfg : Settings) (now : Nat) (runs : List (W × Nat)) (w : W) : Stage → Prop
  | .loading | .reading => Unstarted runs w
  | .resting base due => base + cfg.interval ≤ due ∧ Covers runs w base
  | .awake base | .triggering base | .resuming _ base | .acquiring _ base =>
    Counts cfg now runs w base
  | .down | .asleep _ | .bidding _ | .leading | .watching _ | .stopped => True

def Stage.isEarly : Stage → Bool
  | .down | .asleep _ | .bidding _ | .leading | .stopped => true
  | _ => false

structure Worker.Sound (cfg : Settings) (now : Nat) (runs : List (W × Nat)) (w : W)
    (x : Worker) : Prop where
  early : x.firstCycle = true → Unstarted runs w ∧ x.stage.isEarly = true
  stage : x.stage.Sound cfg now runs w

/-- Every scheduler counts its own runs. -/
structure Tracked (cfg : Settings) (s : State W) : Prop where
  past : ∀ run ∈ s.runs, run.2 ≤ s.now
  worker : ∀ w, (s.worker w).Sound cfg s.now s.runs w

theorem Counts.later {base : Option Nat} (h : Counts cfg now runs w base) (hnow : now ≤ now') :
    Counts cfg now' runs w base := by
  cases base with
  | none => exact h
  | some b => exact ⟨Nat.le_trans h.1 hnow, h.2⟩

theorem Stage.Sound.later {stage : Stage} (h : stage.Sound cfg now runs w) (hnow : now ≤ now') :
    stage.Sound cfg now' runs w := by
  cases stage with
  | awake base | triggering base | resuming _ base | acquiring _ base =>
    exact Counts.later h hnow
  | down | asleep _ | bidding _ | leading | loading | reading | resting _ _ | watching _
  | stopped => exact h

section Runs

variable {t : Nat}

theorem mem_run_of_ne {t' : Nat} (hne : w ≠ v) (h : (w, t') ∈ (v, t) :: runs) :
    (w, t') ∈ runs := by
  cases h with
  | head => exact absurd rfl hne
  | tail _ h => exact h

variable (hne : w ≠ v)

include hne

theorem Unstarted.run_of_ne (h : Unstarted runs w) : Unstarted ((v, t) :: runs) w :=
  fun t' hmem => h t' (mem_run_of_ne hne hmem)

theorem Covers.run_of_ne {base : Nat} (h : Covers runs w base) : Covers ((v, t) :: runs) w base :=
  fun t' hmem => h t' (mem_run_of_ne hne hmem)

theorem Counts.run_of_ne {base : Option Nat} (h : Counts cfg now runs w base) :
    Counts cfg now ((v, t) :: runs) w base := by
  cases base with
  | none => exact Unstarted.run_of_ne hne h
  | some b => exact ⟨h.1, h.2.run_of_ne hne⟩

theorem Worker.Sound.run_of_ne {x : Worker} (h : x.Sound cfg now runs w) :
    x.Sound cfg now ((v, t) :: runs) w where
  early hfirst := ⟨(h.early hfirst).1.run_of_ne hne, (h.early hfirst).2⟩
  stage := by
    have hstage := h.stage
    cases hx : x.stage with
    | loading | reading =>
      rw [hx] at hstage
      exact Unstarted.run_of_ne hne hstage
    | resting base due =>
      rw [hx] at hstage
      exact ⟨hstage.1, hstage.2.run_of_ne hne⟩
    | awake base | triggering base | resuming _ base | acquiring _ base =>
      rw [hx] at hstage
      exact Counts.run_of_ne hne hstage
    | down | asleep _ | bidding _ | leading | watching _ | stopped => exact trivial

end Runs

theorem Worker.Sound.move {x : Worker} {stage : Stage} (h : x.Sound cfg now runs w)
    (hstage : stage.Sound cfg now runs w)
    (hearly : x.stage.isEarly = true → stage.isEarly = true) :
    Worker.Sound cfg now runs w { x with stage := stage } :=
  ⟨fun hfirst => ⟨(h.early hfirst).1, hearly (h.early hfirst).2⟩, hstage⟩

variable [DecidableEq W] {s s' : State W} {base : Option Nat} {origin : Origin}

theorem Tracked.put {x : Worker} (h : Tracked cfg s) (hx : x.Sound cfg s.now s.runs w)
    (hnow : s'.now = s.now) (hruns : s'.runs = s.runs) (hworker : s'.worker = s.worker) :
    Tracked cfg (s'.put w x) where
  past := by
    show ∀ run ∈ s'.runs, run.2 ≤ s'.now
    rw [hnow, hruns]
    exact h.past
  worker v := by
    show (Function.update s'.worker w x v).Sound cfg s'.now s'.runs v
    rw [hnow, hruns, hworker]
    by_cases hv : v = w
    · subst hv
      rw [Function.update_self]
      exact hx
    · rw [Function.update_of_ne hv]
      exact h.worker v

theorem Tracked.setStage {stage : Stage} (h : Tracked cfg s)
    (hstage : stage.Sound cfg s.now s.runs w)
    (hearly : (s.worker w).stage.isEarly = true → stage.isEarly = true) :
    Tracked cfg (s.setStage w stage) :=
  h.put ((h.worker w).move hstage hearly) rfl rfl rfl

theorem Tracked.onward {stage : Stage} (h : Tracked cfg s)
    (hlate : (s.worker w).stage.isEarly = false) (hstage : stage.Sound cfg s.now s.runs w) :
    Tracked cfg (s.setStage w stage) :=
  h.setStage hstage fun hearly => by
    rw [hlate] at hearly
    cases hearly

theorem Tracked.tryBecomeLeader (h : Tracked cfg s) : Tracked cfg (tryBecomeLeader w s) :=
  h.setStage trivial fun _ => rfl

theorem Tracked.answerBid {b : Bid} (h : Tracked cfg s) : Tracked cfg (answerBid w b s) := by
  have hstage : ∀ result, (afterBid s.now result).Sound cfg s.now s.runs w := by
    intro result
    cases result <;> trivial
  have hearly : ∀ result, (afterBid s.now result).isEarly = true := by
    intro result
    cases result <;> rfl
  exact h.put ((h.worker w).move (hstage _) fun _ => hearly _) rfl rfl rfl

/-- Every run of the worker is in the past when it begins to rest. -/
theorem Tracked.plan (h : Tracked cfg s) : Tracked cfg (plan cfg w s) := by
  have hcovers : Covers s.runs w s.now := fun t hmem => h.past (w, t) hmem
  unfold Schedules.plan
  split
  · exact h.put ⟨nofun, trivial⟩ rfl rfl rfl
  split
  · rename_i hfirst
    exact h.put ⟨nofun, ((h.worker w).early hfirst).1⟩ rfl rfl rfl
  · rename_i hfirst
    exact h.put ⟨fun hfirst' => absurd hfirst' hfirst, Nat.le_refl _, hcovers⟩ rfl rfl rfl

theorem Tracked.loadCheckpoint (h : Tracked cfg s) (hstage : (s.worker w).stage = .loading) :
    Tracked cfg (loadCheckpoint w s) := by
  have hsound := (h.worker w).stage
  rw [hstage] at hsound
  have hlate : (s.worker w).stage.isEarly = false := by rw [hstage]; rfl
  unfold Schedules.loadCheckpoint
  split
  · split
    · exact h.tryBecomeLeader
    · exact h.onward hlate hsound
  · exact h.onward hlate hsound

theorem Tracked.readSyncedAt (h : Tracked cfg s) (hstage : (s.worker w).stage = .reading) :
    Tracked cfg (readSyncedAt cfg w s) := by
  have hsound := (h.worker w).stage
  rw [hstage] at hsound
  have hunstarted : Unstarted s.runs w := hsound
  have hlate : (s.worker w).stage.isEarly = false := by rw [hstage]; rfl
  have hcovers : ∀ t, Covers s.runs w t := fun t t' hmem => absurd hmem (hunstarted t')
  unfold Schedules.readSyncedAt
  split
  · exact h.onward hlate hunstarted
  · rename_i t _
    split
    · exact h.onward hlate ⟨Nat.le_refl _, hcovers t⟩
    · exact h.onward hlate ⟨by omega, hcovers t⟩

section Counted

variable (h : Tracked cfg s) (hcounts : Counts cfg s.now s.runs w base)
  (hlate : (s.worker w).stage.isEarly = false)

include h hcounts hlate

theorem Tracked.look : Tracked cfg (look w base s) := by
  unfold Schedules.look
  split
  · exact h.onward hlate trivial
  split
  · exact h.onward hlate hcounts
  · exact h.onward hlate hcounts

theorem Tracked.refuse : Tracked cfg (refuse w base s origin) := by
  cases origin with
  | firstCycle | trigger => exact h.onward hlate trivial
  | resume => exact h.onward hlate hcounts

theorem Tracked.trigger : Tracked cfg (trigger w base s) := by
  unfold Schedules.trigger
  split <;> exact h.onward hlate hcounts

theorem Tracked.resume : Tracked cfg (resume w origin base s) := by
  unfold Schedules.resume
  split
  · exact h.onward hlate hcounts
  · exact h.refuse hcounts hlate

end Counted

theorem Tracked.startRun (h : Tracked cfg s) (hlate : (s.worker w).stage.isEarly = false) :
    Tracked cfg (startRun cfg w origin s) where
  past run hmem := by
    cases hmem with
    | head => exact Nat.le_refl _
    | tail _ hmem => exact h.past run hmem
  worker v := by
    have hfirst : (s.worker w).firstCycle = true → False := by
      intro hfirst
      have hearly := ((h.worker w).early hfirst).2
      rw [hlate] at hearly
      cases hearly
    show (Function.update s.worker w _ v).Sound cfg s.now ((w, s.now) :: s.runs) v
    by_cases hv : v = w
    · subst hv
      rw [Function.update_self]
      refine ⟨fun hstill => (hfirst hstill).elim, ?_⟩
      show (if origin = Origin.firstCycle then Stage.bidding (.inserting s.now)
        else .watching s.now).Sound cfg s.now ((v, s.now) :: s.runs) v
      split <;> trivial
    · rw [Function.update_of_ne hv]
      exact (h.worker v).run_of_ne hv

theorem Tracked.acquire (h : Tracked cfg s) (hcounts : Counts cfg s.now s.runs w base)
    (hlate : (s.worker w).stage.isEarly = false) : Tracked cfg (acquire cfg w origin base s) := by
  unfold Schedules.acquire
  split
  · exact h.startRun hlate
  · exact h.refuse hcounts hlate

omit [DecidableEq W] in
theorem Tracked.tick (h : Tracked cfg s) (d : Nat) : Tracked cfg { s with now := s.now + d } where
  past run hmem := Nat.le_trans (h.past run hmem) (Nat.le_add_right _ _)
  worker v := ⟨(h.worker v).early, (h.worker v).stage.later (Nat.le_add_right _ _)⟩

theorem Tracked.wake (h : Tracked cfg s) (hdue : (s.worker w).stage.isDue s.now = true) :
    Tracked cfg (next cfg s (.wake w)) := by
  have hsound := (h.worker w).stage
  dsimp only [next]
  split
  · exact h.tryBecomeLeader
  · rename_i base due hstage
    rw [hstage] at hsound hdue
    have hover : due ≤ s.now := of_decide_eq_true hdue
    exact h.onward (by rw [hstage]; rfl) ⟨Nat.le_trans hsound.1 hover, hsound.2⟩
  · exact h

theorem Tracked.next {act : Act W} (h : Tracked cfg s) (henabled : Enabled cfg s act) :
    Tracked cfg (next cfg s act) := by
  cases act with
  | start w => exact h.setStage trivial fun _ => rfl
  | wake w => exact h.wake henabled
  | bid w =>
    dsimp only [Schedules.next]
    split
    · exact h.answerBid
    · exact h
  | plan w => exact h.plan
  | load w => exact h.loadCheckpoint henabled
  | read w => exact h.readSyncedAt henabled
  | look w =>
    have hsound := (h.worker w).stage
    dsimp only [Schedules.next]
    split
    · rename_i hstage
      rw [hstage] at hsound
      exact h.look hsound (by rw [hstage]; rfl)
    · exact h
  | resume w =>
    have hsound := (h.worker w).stage
    dsimp only [Schedules.next]
    split
    · rename_i hstage
      rw [hstage] at hsound
      exact h.resume hsound (by rw [hstage]; rfl)
    · exact h
  | trigger w =>
    have hsound := (h.worker w).stage
    dsimp only [Schedules.next]
    split
    · rename_i hstage
      rw [hstage] at hsound
      exact h.trigger hsound (by rw [hstage]; rfl)
    · exact h
  | acquire w =>
    have hsound := (h.worker w).stage
    dsimp only [Schedules.next]
    split
    · rename_i hstage
      rw [hstage] at hsound
      exact h.acquire hsound (by rw [hstage]; rfl)
    · exact h
  | heartbeat w | saveCheckpoint w | expire => exact ⟨h.past, h.worker⟩
  | leave w => exact h.tryBecomeLeader
  | stop w =>
    exact h.put ((h.worker w).move trivial fun _ => rfl) rfl rfl rfl
  | crash w => exact h.setStage trivial fun _ => rfl
  | execute w =>
    dsimp only [Schedules.next]
    split
    · exact h.put ⟨(h.worker w).early, (h.worker w).stage⟩ rfl rfl rfl
    · exact h
  | persistSyncedAt w =>
    dsimp only [Schedules.next]
    split
    · exact ⟨h.past, h.worker⟩
    · exact h
  | complete w | clearCheckpoint w | release w =>
    exact h.put ⟨(h.worker w).early, (h.worker w).stage⟩ rfl rfl rfl
  | tick d => exact h.tick d

omit [DecidableEq W] in
theorem tracked_fresh {claim : Option (LeaderDoc W)} {syncedAt : Option Nat} :
    Tracked cfg (fresh now claim syncedAt) where
  past := nofun
  worker _ := ⟨fun _ => ⟨nofun, rfl⟩, trivial⟩

def Starts (cfg : Settings) (s : State W) : Act W → Prop
  | .acquire w => (s.worker w).stage.isAcquiring = true ∧ canStart cfg w s = true
  | _ => False

/-- A run starts an interval or more behind every earlier one. -/
def Distant (cfg : Settings) (s : State W) (act : Act W) : Prop :=
  Starts cfg s act → ∀ run ∈ s.runs, run.2 + cfg.interval ≤ s.now

/-- The time from which the stage counts is not before a run of another worker. -/
def Stage.Heeds (runs : List (W × Nat)) (w : W) : Stage → Prop
  | .acquiring _ base => ∀ run ∈ runs, run.1 ≠ w → (base.any fun b => run.2 ≤ b) = true
  | _ => True

/-- A run that is started is counted from a time that is not before a run of another worker. -/
def Counted (cfg : Settings) (s : State W) : Act W → Prop
  | .acquire w => canStart cfg w s = true → (s.worker w).stage.Heeds s.runs w
  | _ => True

theorem Tracked.distant {act : Act W} (h : Tracked cfg s) (hcounted : Counted cfg s act) :
    Distant cfg s act := by
  intro hstarts run hmem
  cases act with
  | acquire w =>
    obtain ⟨hacquiring, hcan⟩ := hstarts
    have hheeds := hcounted hcan
    have hsound := (h.worker w).stage
    cases hstage : (s.worker w).stage with
    | acquiring origin base =>
      rw [hstage] at hheeds hsound
      cases base with
      | none =>
        by_cases hown : run.1 = w
        · subst hown
          exact absurd hmem (hsound run.2)
        · cases hheeds run hmem hown
      | some b =>
        have hover : b + cfg.interval ≤ s.now := hsound.1
        have hcovered : run.2 ≤ b := by
          by_cases hown : run.1 = w
          · subst hown
            exact hsound.2 run.2 hmem
          · exact of_decide_eq_true (hheeds run hmem hown)
        omega
    | _ =>
      rw [hstage] at hacquiring
      cases hacquiring
  | _ => exact hstarts.elim

/-- Two runs are an interval apart where no scheduler starts one without counting the runs of
the others. -/
theorem runs_distant {claim : Option (LeaderDoc W)} {syncedAt : Option Nat} {acts : List (Act W)}
    (hrun : (schedulers cfg).Runs (Counted cfg) (fresh now claim syncedAt) acts) :
    (schedulers cfg).Runs (Distant cfg) (fresh now claim syncedAt) acts :=
  Machine.Keeps.run (I := Tracked cfg) (fun _ _ henabled _ h => h.next henabled)
    (fun _ _ _ hcounted h => h.distant hcounted) hrun tracked_fresh

instance (s : State W) : ∀ act, Decidable (Starts cfg s act)
  | .acquire _ => inferInstanceAs (Decidable (_ = true ∧ _ = true))
  | .start _ | .wake _ | .bid _ | .plan _ | .load _ | .read _ | .look _ | .resume _ | .trigger _
  | .heartbeat _ | .leave _ | .stop _ | .crash _ | .execute _ | .saveCheckpoint _
  | .persistSyncedAt _ | .complete _ | .clearCheckpoint _ | .release _ | .expire | .tick _ =>
    inferInstanceAs (Decidable False)

instance (s : State W) (act : Act W) : Decidable (Distant cfg s act) :=
  inferInstanceAs (Decidable (_ → ∀ _ ∈ _, _))

instance (stage : Stage) : Decidable (stage.Heeds runs w) :=
  match stage with
  | .acquiring _ _ => inferInstanceAs (Decidable (∀ _ ∈ _, _ → _ = true))
  | .down | .asleep _ | .bidding _ | .leading | .loading | .reading | .resting _ _ | .awake _
  | .triggering _ | .resuming _ _ | .watching _ | .stopped => inferInstanceAs (Decidable True)

instance (s : State W) : ∀ act, Decidable (Counted cfg s act)
  | .acquire _ => inferInstanceAs (Decidable (_ = true → Stage.Heeds _ _ _))
  | .start _ | .wake _ | .bid _ | .plan _ | .load _ | .read _ | .look _ | .resume _ | .trigger _
  | .heartbeat _ | .leave _ | .stop _ | .crash _ | .execute _ | .saveCheckpoint _
  | .persistSyncedAt _ | .complete _ | .clearCheckpoint _ | .release _ | .expire | .tick _ =>
    inferInstanceAs (Decidable True)

def oneRun (w : Bool) : List (Act Bool) :=
  [.look w, .trigger w, .acquire w, .execute w, .tick 5000, .persistSyncedAt w, .complete w,
    .clearCheckpoint w, .release w, .tick 5000, .heartbeat w, .leave w]

/-- A worker runs the phase in its first cycle and rests.  Its claim expires, and the other worker
takes over and runs the phase when the stored time is two minutes ago. -/
def takenOver : List (Act Bool) :=
  [.start true, .tick 30000, .wake true, .bid true, .plan true, .load true, .read true] ++
    oneRun true ++
    [.bid true, .bid true, .plan true, .tick 65000, .start false, .tick 30000,
      .wake false, .bid false, .bid false, .bid false, .plan false, .load false, .read false,
      .tick 15000, .wake false] ++ oneRun false

theorem taken_over_distant :
    (schedulers ⟨2, true⟩).Runs (Counted ⟨2, true⟩) (fresh 0 none none) takenOver ∧
    (schedulers ⟨2, true⟩).Runs (Distant ⟨2, true⟩) (fresh 0 none none) takenOver :=
  have hrun : (schedulers ⟨2, true⟩).Runs (Counted ⟨2, true⟩) (fresh 0 none none) takenOver := by
    decide +kernel
  ⟨hrun, runs_distant hrun⟩

/-- Then the first worker wakes and starts a run ten seconds behind the one of the other. -/
theorem sleeper_runs_too_early :
    ¬∀ acts : List (Act Bool), (schedulers ⟨2, true⟩).Runs (fun _ _ => True) (fresh 0 none none)
      acts → (schedulers ⟨2, true⟩).Runs (Distant ⟨2, true⟩) (fresh 0 none none) acts := by
  intro hclaim
  have hrun := hclaim (takenOver ++ [.wake true, .look true, .trigger true, .acquire true])
    (by decide +kernel)
  revert hrun
  decide +kernel

end Sentora.Schedules
