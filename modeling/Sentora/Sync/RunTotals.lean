import Mathlib.Algebra.GroupWithZero.Nat
import Sentora.Sync.Manager

/-!
# Closing of sync runs

Whether each run that a broadcast creates is closed once, with the status and the
counts of its phases.

Two phases with one count field overwrite each other in `_snapshot`: the run shows
the later one in the order of the runners, not the sum.
-/

namespace Sentora.Progress

open Lib
open Workers (Status RunStatus)
open Manager (Outcome)

/-! ## Books

What the attempts report, apart from the runners of the code. -/

/-- The last attempt of a phase; it has an outcome when it has ended. -/
structure Report where
  attempt : Attempt
  outcome : Option Outcome
  tally : Tally
deriving DecidableEq

/-- A closed run, with the reports that it closes. -/
structure Closing where
  run : SyncRun
  report : Phase → Option Report

/-- The reports since the last closing, the ids of the runs created, and the
closings. -/
structure Books where
  report : Phase → Option Report := fun _ => none
  created : List String := []
  closings : List Closing := []

def Books.amend (b : Books) (i : Attempt) (f : Report → Report) : Books :=
  { b with
    report := Function.update b.report i.phase
      ((b.report i.phase).map fun r => if r.attempt = i then f r else r) }

section Books

variable (crowdStrike : Bool)

def Books.createdBy (b : Books) (m : Manager) (data : PhaseData) (newId : String) : List String :=
  if m.currentRun.isNone then
    b.created ++ ((m.openRun crowdStrike data newId).map SyncRun.id).toList
  else b.created

def Books.inner (b : Books) (m : Manager) (data : PhaseData) (newId : String) : Books :=
  match m.closes crowdStrike data newId with
  | some run =>
    { report := fun _ => none
      created := b.createdBy crowdStrike m data newId
      closings := b.closings ++ [⟨run, b.report⟩] }
  | none => { b with created := b.createdBy crowdStrike m data newId }

def Books.record (b : Books) (m : Manager) : Manager.Act → Books
  | .start i _ tally =>
    { b with report := Function.update b.report i.phase (some ⟨i, none, tally⟩) }
  | .count i tally => b.amend i fun r => { r with tally := tally }
  | .finish i outcome => b.amend i fun r => { r with outcome := some outcome }
  | .clearFails i => b.amend i fun r => { r with outcome := some .failed }
  | .inner i newId =>
    match m.stage i with
    | .waiting data => b.inner crowdStrike m data newId
    | _ => b
  | .update _ | .clear _ | .persist | .send | .publish => b

def keeping : Machine (Manager × Books) Manager.Act where
  Enabled s act := s.1.Enabled crowdStrike act
  next s act := (s.1.next crowdStrike act, s.2.record crowdStrike s.1 act)

def total (report : Phase → Option Report) (part : Tally → Nat) (e : Entity) : Nat :=
  (((registered crowdStrike).filter fun p => countField p = e).map
    fun p => (report p).elim 0 fun r => part r.tally).sum

/-- The phases have ended, and the run has failed if the last attempt of one of
them has; its counts are the sums. -/
structure Closing.Right (c : Closing) : Prop where
  ended : ∀ p r, c.report p = some r → r.outcome ≠ none
  status : c.run.status = .completed ∨ c.run.status = .failed
  failed : c.run.status = .failed ↔ ∃ p r, c.report p = some r ∧ r.outcome = some .failed
  synced : ∀ e, (c.run.counts e).synced = total crowdStrike c.report Tally.synced e
  total : ∀ e, (c.run.counts e).total = Progress.total crowdStrike c.report Tally.total e

end Books

section Counts

theorem foldl_counts (runner : Phase → PhaseRunner) (ps : List Phase) (counts : SyncCounts)
    (e : Entity)
    (hclear : ps.Pairwise fun p q => countField p = countField q → (runner p).status ≠ .idle →
      (runner q).status ≠ .idle → (runner p).tally = {})
    (part : Tally → Nat) (hzero : part {} = 0) (hcounts : counts e = {}) :
    part (ps.foldl
      (fun counts p =>
        if (runner p).status ≠ .idle then
          Function.update counts (countField p) (runner p).tally
        else counts) counts e) =
      ((ps.filter fun p => countField p = e).map fun p =>
        if (runner p).status ≠ .idle then part (runner p).tally else 0).sum := by
  induction ps using List.reverseRecOn with
  | nil => simp [hcounts, hzero]
  | append_singleton ps q ih =>
    rw [List.pairwise_append] at hclear
    obtain ⟨hps, -, hlast⟩ := hclear
    rw [List.foldl_append, List.filter_append, List.map_append, List.sum_append]
    simp only [List.foldl_cons, List.foldl_nil]
    by_cases hidle : (runner q).status ≠ .idle
    · by_cases hq : countField q = e
      · -- nothing of the phases before `q` is lost
        have hsum : ((ps.filter fun p => countField p = e).map fun p =>
            if (runner p).status ≠ .idle then part (runner p).tally else 0).sum = 0 := by
          rw [List.sum_eq_zero_iff_forall_eq_nat]
          intro n hn
          obtain ⟨p, hp, rfl⟩ := List.mem_map.1 hn
          obtain ⟨hp, he⟩ := List.mem_filter.1 hp
          split
          · next hpidle =>
            rw [hlast p hp q (List.mem_singleton.2 rfl) ((of_decide_eq_true he).trans hq.symm)
              hpidle hidle, hzero]
          · rfl
        rw [hsum]
        simp [hidle, hq]
      · rw [if_pos hidle, Function.update_of_ne (Ne.symm hq), ih hps]
        simp [hq]
    · rw [if_neg hidle, ih hps]
      by_cases hq : countField q = e
      · simp [hq, hidle]
      · simp [hq]

end Counts

/-- The coroutine of the attempt has not ended its phase. -/
def Stage.alive : Stage → Bool
  | .waiting data => !data.type.terminal
  | .broadcasting last => !last
  | .executing => true
  | _ => false

/-- The coroutine has ended its phase, and its terminal event is still to come. -/
def Stage.ending : Stage → Bool
  | .clearing => true
  | .waiting data => data.type.terminal
  | _ => false

/-- The first broadcast has been made. -/
def Stage.shown : Stage → Bool
  | .broadcasting last => !last
  | .executing => true
  | _ => false

def BroadcastLock.persists : BroadcastLock → Bool
  | .persisting _ _ => true
  | _ => false

/-- A runner and the report on its phase.  While a run is persisted, the runners
of its phases are still to be reset. -/
def Agrees (persists : Bool) (runner : PhaseRunner) (report : Option Report) : Prop :=
  match report with
  | none => runner.status ≠ .running ∧ (persists = false → runner.status = .idle)
  | some r =>
    runner.tally = r.tally ∧ runner.status = r.outcome.elim .running Outcome.status

def Manager.pending (m : Manager) : Option SyncRun :=
  if m.lock.persists then none else m.currentRun

structure Kept (crowdStrike : Bool) (m : Manager) (b : Books) : Prop where
  agrees : ∀ p, Agrees m.lock.persists (m.runner p) (b.report p)
  registered : ∀ p r, b.report p = some r → p ∈ registered crowdStrike
  reported : ∀ i, (m.stage i).alive = true →
    ∃ r, b.report i.phase = some r ∧ r.attempt = i ∧ r.outcome = none
  running : ∀ p r, b.report p = some r → r.attempt.phase = p ∧
    (r.outcome = none → (m.stage r.attempt).alive = true)
  /-- While a run is persisted, new attempts wait for the lock. -/
  window : m.lock.persists = true →
    (∀ i, (m.stage i).shown = false) ∧ ∀ p r, b.report p = some r → r.outcome = none
  shown : ∀ i, (m.stage i).shown = true → m.pending ≠ none
  ended : ∀ p r, b.report p = some r → r.outcome ≠ none → m.pending ≠ none
  closing : m.pending ≠ none → ∃ i, (m.stage i).alive = true ∨ (m.stage i).ending = true
  created : b.created = m.persisted.map SyncRun.id ++ (m.pending.map SyncRun.id).toList
  closings : b.closings.map Closing.run = m.persisted
  right : ∀ c ∈ b.closings, c.Right crowdStrike

theorem Manager.setStage_self (m : Manager) (i : Attempt) : m.setStage i (m.stage i) = m := by
  simp [Manager.setStage]

section Attempts

variable {crowdStrike : Bool} {m : Manager} {b : Books} {i : Attempt}

theorem Kept.step (h : Kept crowdStrike m b) (runner : PhaseRunner) (report : Option Report)
    (st : Stage) (hagrees : Agrees m.lock.persists runner report)
    (hregistered : ∀ r, report = some r → i.phase ∈ Progress.registered crowdStrike)
    (hreported : ∀ j, j.phase = i.phase → (Function.update m.stage i st j).alive = true →
      ∃ r, report = some r ∧ r.attempt = j ∧ r.outcome = none)
    (hrunning : ∀ r, report = some r → r.attempt.phase = i.phase ∧
      (r.outcome = none → (Function.update m.stage i st r.attempt).alive = true))
    (hwindow : m.lock.persists = true →
      st.shown = false ∧ ∀ r, report = some r → r.outcome = none)
    (hshown : st.shown = true → m.pending ≠ none)
    (hended : ∀ r, report = some r → r.outcome ≠ none → m.pending ≠ none)
    (hclosing : (m.stage i).alive = true ∨ (m.stage i).ending = true →
      st.alive = true ∨ st.ending = true) :
    Kept crowdStrike ((m.setRunner i.phase runner).setStage i st)
      { b with report := Function.update b.report i.phase report } where
  agrees p := by
    by_cases hp : p = i.phase
    · subst hp
      simpa [Manager.setRunner, Manager.setStage] using hagrees
    · simpa [Manager.setRunner, Manager.setStage, hp] using h.agrees p
  registered p r hr := by
    by_cases hp : p = i.phase
    · subst hp
      exact hregistered r (by simpa using hr)
    · exact h.registered p r (by simpa [hp] using hr)
  reported j hj := by
    by_cases hp : j.phase = i.phase
    · simpa [hp] using hreported j hp hj
    · have hne : j ≠ i := fun heq => hp (congrArg Attempt.phase heq)
      simp only [Manager.setRunner, Manager.setStage, Function.update_of_ne hne] at hj
      simpa [hp] using h.reported j hj
  running p r hr := by
    by_cases hp : p = i.phase
    · subst hp
      exact hrunning r (by simpa using hr)
    · obtain ⟨hphase, halive⟩ := h.running p r (by simpa [hp] using hr)
      have hne : r.attempt ≠ i := fun heq => hp (by rw [← hphase, heq])
      refine ⟨hphase, fun hnone => ?_⟩
      simpa [Manager.setStage, Manager.setRunner, hne] using halive hnone
  window hpersists := by
    obtain ⟨hstages, hreports⟩ := h.window hpersists
    refine ⟨fun j => ?_, fun p r hr => ?_⟩
    · by_cases hj : j = i
      · subst hj
        simpa [Manager.setStage] using (hwindow hpersists).1
      · simpa [Manager.setStage, Manager.setRunner, hj] using hstages j
    · by_cases hp : p = i.phase
      · subst hp
        exact (hwindow hpersists).2 r (by simpa using hr)
      · exact hreports p r (by simpa [hp] using hr)
  shown j hj := by
    by_cases heq : j = i
    · subst heq
      exact hshown (by simpa [Manager.setStage] using hj)
    · exact h.shown j (by simpa [Manager.setStage, Manager.setRunner, heq] using hj)
  ended p r hr houtcome := by
    by_cases hp : p = i.phase
    · subst hp
      exact hended r (by simpa using hr) houtcome
    · exact h.ended p r (by simpa [hp] using hr) houtcome
  closing hpending := by
    obtain ⟨j, hj⟩ := h.closing hpending
    by_cases heq : j = i
    · subst heq
      exact ⟨j, by simpa [Manager.setStage] using hclosing hj⟩
    · exact ⟨j, by simpa [Manager.setStage, Manager.setRunner, heq] using hj⟩
  created := h.created
  closings := h.closings
  right := h.right

theorem Kept.not_alive (h : Kept crowdStrike m b) {p : Phase}
    (hstatus : (m.runner p).status ≠ .running) {j : Attempt} (hj : j.phase = p) :
    (m.stage j).alive = false := by
  by_contra halive
  obtain ⟨r, hr, -, hnone⟩ := h.reported j (by simpa using halive)
  have hagrees := h.agrees p
  rw [← hj, hr] at hagrees
  exact hstatus (by rw [← hj, hagrees.2, hnone]; rfl)

theorem Kept.start (h : Kept crowdStrike m b) {runId : String} {tally : Tally}
    (henabled : m.Enabled crowdStrike (.start i runId tally)) :
    Kept crowdStrike (m.start i runId tally)
      (b.record crowdStrike m (.start i runId tally)) := by
  obtain ⟨hregistered, hstage, hstatus⟩ := henabled
  refine h.step _ _ _ ⟨rfl, rfl⟩ (fun _ _ => hregistered) (fun j hj halive => ?_) (fun r hr => ?_)
    (fun _ => ⟨rfl, ?_⟩) (by simp [Stage.shown]) ?_ (by simp [hstage, Stage.alive, Stage.ending])
  · -- no other attempt of the phase is alive
    by_cases heq : j = i
    · exact ⟨_, rfl, heq.symm, rfl⟩
    · rw [Function.update_of_ne heq, h.not_alive hstatus hj] at halive
      cases halive
  · cases hr
    exact ⟨rfl, fun _ => by simp [Stage.alive, DataType.terminal]⟩
  · intro r hr
    cases hr
    rfl
  · intro r hr houtcome
    cases hr
    exact absurd rfl houtcome

/-- An attempt that goes on, without a word to its runner or the books. -/
theorem Kept.setStage (h : Kept crowdStrike m b) {st : Stage}
    (halive : st.alive = (m.stage i).alive) (hending : st.ending = (m.stage i).ending)
    (hshown : st.shown = true → (m.stage i).shown = true) :
    Kept crowdStrike (m.setStage i st) b := by
  have hsame : ∀ j, (Function.update m.stage i st j).alive = (m.stage j).alive := by
    intro j
    by_cases hj : j = i
    · subst hj
      simpa using halive
    · simp [hj]
  have hstep : Kept crowdStrike ((m.setRunner i.phase (m.runner i.phase)).setStage i st)
      { b with report := Function.update b.report i.phase (b.report i.phase) } := by
    refine h.step _ _ _ (h.agrees _) (fun r hr => h.registered _ r hr) (fun j hj hst => ?_)
      (fun r hr => ?_) (fun hpersists => ⟨?_, fun r hr => (h.window hpersists).2 _ r hr⟩)
      (fun hst => h.shown i (hshown hst)) (fun r hr => h.ended _ r hr) ?_
    · rw [hsame] at hst
      exact hj ▸ h.reported j hst
    · obtain ⟨hphase, hnone⟩ := h.running _ r hr
      exact ⟨hphase, fun houtcome => (hsame _).trans (hnone houtcome)⟩
    · cases hst : st.shown with
      | false => rfl
      | true => rw [← hshown hst, (h.window hpersists).1 i]
    · rw [halive, hending]
      exact id
  simpa [Manager.setRunner, Function.update_eq_self] using hstep

theorem Kept.update (h : Kept crowdStrike m b) (hstage : m.stage i = .executing) :
    Kept crowdStrike (m.broadcast i .progress) b :=
  h.setStage (by rw [hstage]; rfl) (by rw [hstage]; rfl) (by simp [Stage.shown])

theorem Kept.clear (h : Kept crowdStrike m b) (hstage : m.stage i = .clearing) :
    Kept crowdStrike (m.broadcast i .phaseCompleted) b :=
  h.setStage (by rw [hstage]; rfl) (by rw [hstage]; rfl) (by simp [Stage.shown])

/-- An attempt that is alive amends the report of its phase. -/
theorem Kept.count (h : Kept crowdStrike m b) {tally : Tally} (hstage : m.stage i = .executing) :
    Kept crowdStrike (m.count i tally) (b.record crowdStrike m (.count i tally)) := by
  have halive : (m.stage i).alive = true := by
    rw [hstage]
    rfl
  obtain ⟨r, hr, hattempt, houtcome⟩ := h.reported i halive
  have hagrees := h.agrees i.phase
  rw [hr] at hagrees
  have hstep : Kept crowdStrike ((m.setRunner i.phase
      { m.runner i.phase with tally := tally }).setStage i (m.stage i))
      { b with report := Function.update b.report i.phase (some { r with tally := tally }) } := by
    refine h.step _ _ _ ⟨rfl, hagrees.2⟩ (fun _ _ => h.registered _ r hr) (fun j hj hst => ?_)
      (fun r' hr' => ?_) (fun hpersists => ⟨(h.window hpersists).1 i, fun r' hr' => ?_⟩)
      (h.shown i) (fun r' hr' hended => ?_) id
    · rw [Function.update_eq_self] at hst
      obtain ⟨r', hr', hattempt', -⟩ := h.reported j hst
      rw [hj, hr, Option.some.injEq] at hr'
      exact ⟨_, rfl, by rw [← hattempt', hr'], houtcome⟩
    · cases hr'
      rw [Function.update_eq_self]
      exact h.running _ r hr
    · cases hr'
      exact houtcome
    · cases hr'
      exact absurd houtcome hended
  have hamend : b.record crowdStrike m (.count i tally) =
      { b with report := Function.update b.report i.phase (some { r with tally := tally }) } := by
    simp [Books.record, Books.amend, hr, hattempt]
  rw [hamend]
  rwa [show (m.setRunner i.phase { m.runner i.phase with tally := tally }).setStage i (m.stage i) =
    m.count i tally from Manager.setStage_self _ i] at hstep

theorem Kept.outcome (h : Kept crowdStrike m b) {r : Report} (hr : b.report i.phase = some r)
    (hattempt : r.attempt = i) (outcome : Outcome) (hpending : m.pending ≠ none)
    (st : Stage) (hending : st.ending = true) (halive : st.alive = false)
    (hshown : st.shown = false)
    (hothers : ∀ j, j ≠ i → j.phase = i.phase → (m.stage j).alive = false) :
    Kept crowdStrike ((m.setStatus i outcome).setStage i st)
      (b.amend i fun r => { r with outcome := some outcome }) := by
  have hagrees := h.agrees i.phase
  rw [hr] at hagrees
  have hpersists : m.lock.persists = false := by
    cases hp : m.lock.persists with
    | false => rfl
    | true => simp [Manager.pending, hp] at hpending
  have hstep := h.step (i := i) { m.runner i.phase with status := outcome.status }
    (some { r with outcome := some outcome }) st ⟨hagrees.1, rfl⟩ (fun _ _ => h.registered _ r hr)
    (fun j hj hst => ?_) (fun r' hr' => ?_)
    (fun hp => ?_) (fun hst => ?_) (fun _ _ _ => hpending) (fun _ => .inr hending)
  · have hamend : (b.amend i fun r => { r with outcome := some outcome }) =
        { b with
          report :=
            Function.update b.report i.phase (some { r with outcome := some outcome }) } := by
      simp [Books.amend, hr, hattempt]
    rw [hamend]
    exact hstep
  · by_cases hji : j = i
    · subst hji
      simp [halive] at hst
    · rw [Function.update_of_ne hji, hothers j hji hj] at hst
      cases hst
  · cases hr'
    exact ⟨(h.running _ r hr).1, by simp⟩
  · rw [hpersists] at hp
    cases hp
  · rw [hshown] at hst
    cases hst

theorem Kept.alone (h : Kept crowdStrike m b) {r : Report} (hr : b.report i.phase = some r)
    (hattempt : r.attempt = i) {j : Attempt} (hj : j ≠ i) (hphase : j.phase = i.phase) :
    (m.stage j).alive = false := by
  by_contra halive
  obtain ⟨r', hr', hattempt', -⟩ := h.reported j (by simpa using halive)
  rw [hphase, hr, Option.some.injEq] at hr'
  exact hj (by rw [← hattempt', ← hr', hattempt])

theorem Kept.finish (h : Kept crowdStrike m b) (hstage : m.stage i = .executing)
    (outcome : Outcome) :
    Kept crowdStrike (m.finish i outcome) (b.record crowdStrike m (.finish i outcome)) := by
  have hpending : m.pending ≠ none := h.shown i (by rw [hstage]; rfl)
  obtain ⟨r, hr, hattempt, -⟩ := h.reported i (by rw [hstage]; rfl)
  have houtcome := h.outcome hr hattempt outcome hpending
  cases outcome with
  | completed => exact houtcome _ rfl rfl rfl fun j hj => h.alone hr hattempt hj
  | failed => exact houtcome _ rfl rfl rfl fun j hj => h.alone hr hattempt hj
  | cancelled => exact houtcome _ rfl rfl rfl fun j hj => h.alone hr hattempt hj

theorem Kept.clearFails (h : Kept crowdStrike m b) (hstage : m.stage i = .clearing) {r : Report}
    (hr : b.report i.phase = some r) (hattempt : r.attempt = i) :
    Kept crowdStrike (m.clearFails i) (b.record crowdStrike m (.clearFails i)) := by
  have hended : r.outcome ≠ none := by
    intro hnone
    have halive := (h.running _ r hr).2 hnone
    rw [hattempt, hstage] at halive
    cases halive
  exact h.outcome hr hattempt .failed (h.ended _ r hr hended) _ rfl rfl rfl
    fun j hj => h.alone hr hattempt hj

end Attempts

section Broadcasts

variable {crowdStrike : Bool} {m : Manager} {b : Books} {i : Attempt} {data : PhaseData}
  {newId : String}

theorem Kept.anyPhaseRunning_iff (h : Kept crowdStrike m b) :
    m.anyPhaseRunning crowdStrike = true ↔ ∃ p r, b.report p = some r ∧ r.outcome = none := by
  simp only [Manager.anyPhaseRunning, List.any_eq_true, decide_eq_true_eq]
  constructor
  · rintro ⟨p, -, hstatus⟩
    have hagrees := h.agrees p
    cases hr : b.report p with
    | none =>
      rw [hr] at hagrees
      exact absurd hstatus hagrees.1
    | some r =>
      rw [hr] at hagrees
      refine ⟨p, r, hr, ?_⟩
      rw [hagrees.2] at hstatus
      cases houtcome : r.outcome with
      | none => rfl
      | some outcome => cases outcome <;> simp [houtcome, Outcome.status] at hstatus
  · rintro ⟨p, r, hr, hnone⟩
    have hagrees := h.agrees p
    rw [hr] at hagrees
    exact ⟨p, h.registered p r hr, by rw [hagrees.2, hnone]; rfl⟩

theorem Kept.not_running (h : Kept crowdStrike m b)
    (hrunning : m.anyPhaseRunning crowdStrike = false) (p : Phase) :
    (m.runner p).status ≠ .running := by
  have hagrees := h.agrees p
  cases hr : b.report p with
  | none =>
    rw [hr] at hagrees
    exact hagrees.1
  | some r =>
    rw [hr] at hagrees
    intro hstatus
    have hany : m.anyPhaseRunning crowdStrike = true := by
      simp only [Manager.anyPhaseRunning, List.any_eq_true, decide_eq_true_eq]
      exact ⟨p, h.registered p r hr, hstatus⟩
    rw [hrunning] at hany
    cases hany

theorem shown_of_not_alive {st : Stage} (h : st.alive = false) : st.shown = false := by
  cases st <;> simp_all [Stage.alive, Stage.shown]

theorem Agrees.reset {runner : PhaseRunner} {report : Option Report} (h : Agrees true runner report)
    (hreport : ∀ r, report = some r → r.outcome = none) :
    Agrees false (Manager.resetRunner runner) report := by
  cases report with
  | none =>
    obtain ⟨hstatus, -⟩ := h
    unfold Manager.resetRunner
    cases hs : runner.status <;> simp_all [Agrees]
  | some r =>
    have hnone := hreport r rfl
    have hrunning : runner.status = .running := by rw [h.2, hnone]; rfl
    have hsame : Manager.resetRunner runner = runner := by
      simp [Manager.resetRunner, hrunning]
    rw [hsame]
    exact h

theorem Kept.running_of_alive (h : Kept crowdStrike m b) (halive : (m.stage i).alive = true) :
    m.anyPhaseRunning crowdStrike = true := by
  obtain ⟨r, hr, -, hnone⟩ := h.reported i halive
  exact h.anyPhaseRunning_iff.2 ⟨_, r, hr, hnone⟩

theorem closes_eq_some {run : SyncRun} (h : m.closes crowdStrike data newId = some run) :
    data.type.terminal = true ∧ m.anyPhaseRunning crowdStrike = false ∧
      ∃ current, m.currentRun = some current ∧
        run = m.closeRun crowdStrike (m.touch crowdStrike data current) := by
  unfold Manager.closes at h
  split at h
  · next hcond =>
    rw [Bool.and_eq_true, Bool.not_eq_true'] at hcond
    obtain ⟨hterminal, hrunning⟩ := hcond
    refine ⟨hterminal, hrunning, ?_⟩
    unfold Manager.openRun at h
    split at h
    · next current hcurrent => exact ⟨current, hcurrent, by simpa using h.symm⟩
    · rw [hrunning] at h
      cases h
  · cases h

theorem closes_eq_none (h : m.closes crowdStrike data newId = none) :
    data.type.terminal = false ∨ m.anyPhaseRunning crowdStrike = true ∨
      m.openRun crowdStrike data newId = none := by
  unfold Manager.closes at h
  split at h
  · exact .inr (.inr (by simpa using h))
  · next hcond =>
    cases hterminal : data.type.terminal with
    | false => exact .inl rfl
    | true =>
      refine .inr (.inl ?_)
      simpa [hterminal] using hcond

theorem openRun_ne_none (data : PhaseData) (newId : String) :
    m.openRun crowdStrike data newId ≠ none ↔
      m.currentRun ≠ none ∨ m.anyPhaseRunning crowdStrike = true := by
  unfold Manager.openRun
  split
  · next hcurrent => simp [hcurrent]
  · next hcurrent =>
    cases hrunning : m.anyPhaseRunning crowdStrike <;> simp [hcurrent]

theorem createdBy_eq (crowdStrike : Bool) (data : PhaseData) (newId : String) (hb : b.created =
      m.persisted.map SyncRun.id ++ (m.currentRun.map SyncRun.id).toList) :
    b.createdBy crowdStrike m data newId = m.persisted.map SyncRun.id ++
      ((m.openRun crowdStrike data newId).map SyncRun.id).toList := by
  unfold Books.createdBy
  cases hcurrent : m.currentRun with
  | none => simp [hb, hcurrent]
  | some current => simp [hb, hcurrent, Manager.openRun]

theorem pending_free (hlock : m.lock = .free) : m.pending = m.currentRun := by
  rw [Manager.pending, hlock]
  rfl

theorem Kept.innerOpen (h : Kept crowdStrike m b) (hstage : m.stage i = .waiting data)
    (hlock : m.lock = .free) (hcloses : m.closes crowdStrike data newId = none) :
    Kept crowdStrike (m.phaseBroadcastInner crowdStrike i data newId)
      (b.inner crowdStrike m data newId) := by
  have hpending := pending_free hlock
  have hagrees : ∀ p, Agrees false (m.runner p) (b.report p) := by
    have hkept := h.agrees
    rw [hlock] at hkept
    exact hkept
  simp only [Manager.phaseBroadcastInner, Books.inner, hcloses]
  set run := (m.openRun crowdStrike data newId).map (m.touch crowdStrike data) with hrun
  have hsome : run ≠ none ↔ m.currentRun ≠ none ∨ m.anyPhaseRunning crowdStrike = true := by
    rw [← openRun_ne_none data newId, hrun]
    simp
  have halive : ∀ j, (Function.update m.stage i (.broadcasting data.type.terminal) j).alive =
      (m.stage j).alive := by
    intro j
    by_cases hj : j = i
    · subst hj
      simp [hstage, Stage.alive]
    · simp [hj]
  refine ⟨hagrees, h.registered, fun j hj => h.reported j ((halive j).symm.trans hj),
    fun p r hr => ?_, by simp [BroadcastLock.persists], fun j hj => hsome.2 ?_,
    fun p r hr houtcome => hsome.2 (.inl (hpending ▸ h.ended p r hr houtcome)), fun hpend => ?_, ?_,
    h.closings, h.right⟩
  · obtain ⟨hphase, hnone⟩ := h.running p r hr
    exact ⟨hphase, fun houtcome => (halive _).trans (hnone houtcome)⟩
  · -- the attempt that goes on is running
    by_cases heq : j = i
    · subst heq
      refine .inr (h.running_of_alive (i := j) ?_)
      have hlast : data.type.terminal = false := by
        simpa [Manager.setStage, Stage.shown] using hj
      simp [hstage, Stage.alive, hlast]
    · refine .inl (hpending ▸ h.shown j ?_)
      simpa [Manager.setStage, heq] using hj
  · obtain hlast | hrunning | hnone := closes_eq_none hcloses
    · exact ⟨i, .inl (by simp [Manager.setStage, Stage.alive, hlast])⟩
    · obtain ⟨p, r, hr, houtcome⟩ := h.anyPhaseRunning_iff.1 hrunning
      exact ⟨r.attempt, .inl ((halive _).trans ((h.running p r hr).2 houtcome))⟩
    · exact absurd (by simp [Manager.pending, BroadcastLock.persists, hrun, hnone]) hpend
  · have hids : run.map SyncRun.id = (m.openRun crowdStrike data newId).map SyncRun.id := by
      rw [hrun, Option.map_map]
      rfl
    have hcreated := h.created
    rw [hpending] at hcreated
    simpa [Manager.pending, BroadcastLock.persists, hids, Manager.setStage] using
      createdBy_eq crowdStrike data newId hcreated

theorem Kept.failed_iff (h : Kept crowdStrike m b) (hlock : m.lock = .free) :
    m.anyPhaseFailed crowdStrike = true ↔
      ∃ p r, b.report p = some r ∧ r.outcome = some .failed := by
  simp only [Manager.anyPhaseFailed, List.any_eq_true, decide_eq_true_eq]
  have hagrees := h.agrees
  rw [hlock] at hagrees
  constructor
  · rintro ⟨p, -, hstatus⟩
    have hp := hagrees p
    cases hr : b.report p with
    | none =>
      rw [hr] at hp
      simp [hp.2 rfl] at hstatus
    | some r =>
      rw [hr] at hp
      refine ⟨p, r, hr, ?_⟩
      rw [hp.2] at hstatus
      cases houtcome : r.outcome with
      | none => simp [houtcome] at hstatus
      | some outcome => cases outcome <;> simp [houtcome, Outcome.status] at hstatus ⊢
  · rintro ⟨p, r, hr, houtcome⟩
    have hp := hagrees p
    rw [hr] at hp
    exact ⟨p, h.registered p r hr, by rw [hp.2, houtcome]; rfl⟩

/-- No phase loses its counts to a later one with the same count field. -/
def Manager.Separate (crowdStrike : Bool) (m : Manager) : Prop :=
  (registered crowdStrike).Pairwise fun p q => countField p = countField q →
    (m.runner p).status ≠ .idle → (m.runner q).status ≠ .idle → (m.runner p).tally = {}

instance (crowdStrike : Bool) (m : Manager) : Decidable (m.Separate crowdStrike) :=
  inferInstanceAs (Decidable (List.Pairwise _ _))

theorem Kept.snapshot (h : Kept crowdStrike m b) (hlock : m.lock = .free)
    (hseparate : m.Separate crowdStrike) (part : Tally → Nat) (hzero : part {} = 0) (e : Entity) :
    part (m.snapshot crowdStrike e) = total crowdStrike b.report part e := by
  unfold Manager.snapshot
  rw [foldl_counts m.runner _ _ e hseparate part hzero rfl]
  refine congrArg List.sum (List.map_congr_left fun p _ => ?_)
  have hagrees := h.agrees p
  rw [hlock] at hagrees
  cases hr : b.report p with
  | none =>
    rw [hr] at hagrees
    simp [hagrees.2 rfl]
  | some r =>
    rw [hr] at hagrees
    have hidle : (m.runner p).status ≠ .idle := by
      rw [hagrees.2]
      cases r.outcome with
      | none => simp
      | some outcome => cases outcome <;> simp [Outcome.status]
    rw [if_pos hidle, hagrees.1]
    rfl

theorem Kept.innerClose (h : Kept crowdStrike m b) (hlock : m.lock = .free) {run : SyncRun}
    (hcloses : m.closes crowdStrike data newId = some run) (hseparate : m.Separate crowdStrike) :
    Kept crowdStrike (m.phaseBroadcastInner crowdStrike i data newId)
      (b.inner crowdStrike m data newId) := by
  obtain ⟨hterminal, hrunning, current, hcurrent, hrun⟩ := closes_eq_some hcloses
  have hpending := pending_free hlock
  have hdead : ∀ j, (m.stage j).alive = false := by
    intro j
    cases halive : (m.stage j).alive with
    | false => rfl
    | true => rw [h.running_of_alive halive] at hrunning; cases hrunning
  have hnew : ∀ j, (Function.update m.stage i (.broadcasting true) j).alive = false := by
    intro j
    by_cases hj : j = i
    · subst hj
      simp [Stage.alive]
    · simpa [hj] using hdead j
  have hright : Closing.Right crowdStrike ⟨run, b.report⟩ := by
    refine ⟨fun p r hr hnone => ?_, ?_, ?_, fun e => ?_, fun e => ?_⟩
    · rw [h.anyPhaseRunning_iff.2 ⟨p, r, hr, hnone⟩] at hrunning
      cases hrunning
    · rw [hrun]
      cases m.anyPhaseFailed crowdStrike <;> simp [Manager.closeRun]
    · rw [← h.failed_iff hlock, hrun]
      cases hfailed : m.anyPhaseFailed crowdStrike <;> simp [Manager.closeRun, hfailed]
    · rw [hrun]
      exact h.snapshot hlock hseparate Tally.synced rfl e
    · rw [hrun]
      exact h.snapshot hlock hseparate Tally.total rfl e
  have hcreated := h.created
  rw [hpending] at hcreated
  have hopen : m.openRun crowdStrike data newId = some current := by
    simp [Manager.openRun, hcurrent]
  have hids := createdBy_eq crowdStrike data newId hcreated
  simp only [Manager.phaseBroadcastInner, Books.inner, hcloses]
  exact
    { agrees := fun p => ⟨fun hstatus => h.not_running hrunning p hstatus, fun hp => nomatch hp⟩
      registered := fun p r hr => nomatch hr
      reported := fun j hj => nomatch (hnew j).symm.trans hj
      running := fun p r hr => nomatch hr
      window := fun _ => ⟨fun j => shown_of_not_alive (hnew j), fun p r hr => nomatch hr⟩
      shown := fun j hj => nomatch (shown_of_not_alive (hnew j)).symm.trans hj
      ended := fun p r hr => nomatch hr
      closing := fun hp => absurd rfl hp
      created := by
        simp [hids, hopen, hrun, Manager.pending, BroadcastLock.persists, Manager.closeRun,
          Manager.touch]
      closings := by simp [h.closings]
      right := fun c hc => (List.mem_append.1 hc).elim (h.right c)
        fun hc => List.mem_singleton.1 hc ▸ hright }

theorem Kept.closed (h : Kept crowdStrike m b) {message : ProgressMessage}
    (hlock : m.lock = .persisting i message) : Kept crowdStrike (m.closed i message) b := by
  have hpersists : m.lock.persists = true := by rw [hlock]; rfl
  obtain ⟨hshown, hwindow⟩ := h.window hpersists
  have hpending : m.pending = none := by simp [Manager.pending, hpersists]
  exact
    { agrees := fun p => (hpersists ▸ h.agrees p).reset (hwindow p)
      registered := h.registered
      reported := h.reported
      running := h.running
      window := fun hp => nomatch hp
      shown := fun j hj => nomatch (hshown j).symm.trans hj
      ended := fun p r hr houtcome => absurd (hwindow p r hr) houtcome
      closing := fun hp => absurd rfl hp
      created := by
        have hcreated := h.created
        rw [hpending] at hcreated
        simpa [Manager.closed, Manager.pending, BroadcastLock.persists] using hcreated
      closings := h.closings
      right := h.right }

theorem Kept.setLock (h : Kept crowdStrike m b) {lock : BroadcastLock}
    (hlock : lock.persists = m.lock.persists) : Kept crowdStrike { m with lock := lock } b := by
  have hpending : Manager.pending { m with lock := lock } = m.pending := by
    simp [Manager.pending, hlock]
  refine ⟨?_, h.registered, h.reported, h.running, ?_, ?_, ?_, ?_, ?_, h.closings, h.right⟩
  · simpa [hlock] using h.agrees
  · simpa [hlock] using h.window
  · simpa [hpending] using h.shown
  · simpa [hpending] using h.ended
  · simpa [hpending] using h.closing
  · simpa [hpending] using h.created

end Broadcasts

section Runs

variable (crowdStrike : Bool)

/-- A completed attempt whose checkpoint cannot be deleted is still the last one of
its phase in the run that is open. -/
def Recounted (s : Manager × Books) : Manager.Act → Prop
  | .clearFails i => ∃ r, s.2.report i.phase = some r ∧ r.attempt = i
  | _ => True

/-- A run is closed without two phases that share a count field, unless the one
that is lost has counted nothing. -/
def Summed (s : Manager × Books) : Manager.Act → Prop
  | .inner i newId => ∀ data, s.1.stage i = .waiting data →
      s.1.closes crowdStrike data newId ≠ none → s.1.Separate crowdStrike
  | _ => True

def Careful (s : Manager × Books) (act : Manager.Act) : Prop :=
  Recounted s act ∧ Summed crowdStrike s act

theorem kept_keeps :
    (keeping crowdStrike).Keeps (Careful crowdStrike) fun s => Kept crowdStrike s.1 s.2 := by
  rintro ⟨m, b⟩ act henabled ⟨hrecounted, hsummed⟩ h
  cases act with
  | start i runId tally => exact h.start henabled
  | count i tally => exact h.count henabled
  | update i => exact h.update henabled
  | finish i outcome => exact h.finish henabled outcome
  | clear i => exact h.clear henabled
  | clearFails i =>
    obtain ⟨r, hr, hattempt⟩ := hrecounted
    exact h.clearFails henabled hr hattempt
  | inner i newId =>
    obtain ⟨⟨data, hdata⟩, hlock⟩ : (∃ data, m.stage i = .waiting data) ∧ m.lock = .free := henabled
    have hnext : (m.next crowdStrike (.inner i newId), b.record crowdStrike m (.inner i newId)) =
        (m.phaseBroadcastInner crowdStrike i data newId, b.inner crowdStrike m data newId) := by
      simp only [Manager.next, Books.record, hdata]
    simp only [keeping, hnext]
    cases hcloses : m.closes crowdStrike data newId with
    | none => exact h.innerOpen hdata hlock hcloses
    | some run => exact h.innerClose hlock hcloses (hsummed data hdata (by simp [hcloses]))
  | persist =>
    obtain ⟨i, message, hlock⟩ : ∃ i message, m.lock = .persisting i message := henabled
    simp only [keeping, Manager.next, Books.record, hlock]
    exact h.closed hlock
  | send =>
    obtain ⟨i, last, message, hlock⟩ : ∃ i last message, m.lock = .sending i last message :=
      henabled
    simp only [keeping, Manager.next, Books.record, hlock]
    exact h.setLock (hlock ▸ rfl)
  | publish =>
    obtain ⟨i, last, message, hlock, hstage⟩ : ∃ i last message,
        m.lock = .publishing i last message ∧ m.stage i = .broadcasting last := henabled
    simp only [keeping, Manager.next, Books.record, hlock]
    have hnext : Kept crowdStrike (m.setStage i (if last then .done else .executing)) b := by
      refine h.setStage ?_ ?_ ?_ <;> rw [hstage] <;> cases last <;>
        simp [Stage.alive, Stage.ending, Stage.shown]
    have hfree : BroadcastLock.free.persists = m.lock.persists := by
      rw [hlock]
      rfl
    exact hnext.setLock hfree

def Manager.Quiet (m : Manager) : Prop :=
  m.lock = .free ∧ ∀ i, m.stage i = .unused ∨ m.stage i = .done

structure Manager.Fresh (m : Manager) : Prop where
  runner : ∀ p, m.runner p = {}
  stage : ∀ i, m.stage i = .unused
  lock : m.lock = .free
  currentRun : m.currentRun = none
  history : m.history.length ≤ 100
  persisted : m.persisted = []

theorem Manager.Fresh.kept {m : Manager} (h : m.Fresh) : Kept crowdStrike m {} where
  agrees p := by simp [Agrees, h.runner p]
  registered p r hr := nomatch hr
  reported i hi := by simp [h.stage i, Stage.alive] at hi
  running p r hr := nomatch hr
  window hp := by simp [h.lock, BroadcastLock.persists] at hp
  shown i hi := by simp [h.stage i, Stage.shown] at hi
  ended p r hr := nomatch hr
  closing hp := absurd (by rw [pending_free h.lock, h.currentRun]) hp
  created := by simp [pending_free h.lock, h.currentRun, h.persisted]
  closings := by simp [h.persisted]
  right c hc := nomatch hc

def Remembers (history : List SyncRun) (s : Manager × Books) : Prop :=
  s.1.history = (history ++ s.1.persisted).rtake 100

theorem rtake_append_singleton (l : List SyncRun) (run : SyncRun) :
    (l.rtake 100 ++ [run]).rtake 100 = (l ++ [run]).rtake 100 := by
  rw [List.rtake_concat_succ, List.rtake_concat_succ, List.rtake_eq_reverse_take_reverse,
    List.rtake_eq_reverse_take_reverse, List.rtake_eq_reverse_take_reverse, List.reverse_reverse,
    List.take_take]
  rfl

theorem remembers_keeps (history : List SyncRun) :
    (keeping crowdStrike).Keeps (Careful crowdStrike) (Remembers history) := by
  rintro ⟨m, b⟩ act - - h
  cases act with
  | inner i newId =>
    simp only [keeping, Manager.next, Remembers]
    split
    · unfold Manager.phaseBroadcastInner
      split
      · next run _ =>
        rw [show m.history = _ from h, rtake_append_singleton, List.append_assoc]
      · exact h
    · exact h
  | finish i outcome => cases outcome <;> exact h
  | persist =>
    simp only [keeping, Manager.next, Remembers]
    split <;> exact h
  | send =>
    simp only [keeping, Manager.next, Remembers]
    split <;> exact h
  | publish =>
    simp only [keeping, Manager.next, Remembers]
    split <;> exact h
  | start i runId tally | count i tally | update i | clear i | clearFails i => exact h

/-- Each run that is created is closed once, when its phases have ended, with their
status and their sums. -/
structure Finalised (history : List SyncRun) (s : Manager × Books) : Prop where
  created : s.2.created = s.1.persisted.map SyncRun.id ++ (s.1.pending.map SyncRun.id).toList
  quiet : s.1.Quiet → s.1.pending = none
  closings : s.2.closings.map Closing.run = s.1.persisted
  right : ∀ c ∈ s.2.closings, c.Right crowdStrike
  history : s.1.history = (history ++ s.1.persisted).rtake 100

theorem runs_finalised {m : Manager} (hm : m.Fresh) {acts : List Manager.Act}
    (hrun : (keeping crowdStrike).Runs (Careful crowdStrike) (m, {}) acts) :
    Finalised crowdStrike m.history ((keeping crowdStrike).after (m, {}) acts) := by
  have hkept := (kept_keeps crowdStrike).after hrun (hm.kept crowdStrike)
  have hhistory : Remembers m.history (m, {}) := by
    simp only [Remembers, hm.persisted, List.append_nil]
    rw [List.rtake, Nat.sub_eq_zero_of_le hm.history, List.drop_zero]
  refine ⟨hkept.created, fun hquiet => ?_, hkept.closings, hkept.right,
    (remembers_keeps crowdStrike m.history).after hrun hhistory⟩
  by_contra hpending
  obtain ⟨i, hi⟩ := hkept.closing hpending
  obtain hstage | hstage := hquiet.2 i <;> simp [hstage, Stage.alive, Stage.ending] at hi

end Runs

section TwoPhases

def newManager : Manager where
  runner _ := {}
  stage _ := .unused
  lock := .free
  currentRun := none
  lastCompleted := none
  history := []
  persisted := []

theorem newManager_fresh : newManager.Fresh where
  runner _ := rfl
  stage _ := rfl
  lock := rfl
  currentRun := rfl
  history := Nat.zero_le _
  persisted := rfl

def attempt (p : Phase) : Attempt := ⟨p, 0⟩

def counting (p : Phase) (n : Nat) : List Manager.Act :=
  [.start (attempt p) "run" {}, .inner (attempt p) "new", .send, .publish,
    .count (attempt p) ⟨n, n⟩]

def sitesFail : List Manager.Act :=
  counting .sites 2 ++ counting .agents 5 ++
    [.finish (attempt .sites) .failed, .inner (attempt .sites) "new", .send, .publish,
      .finish (attempt .agents) .completed, .clear (attempt .agents),
      .inner (attempt .agents) "new", .persist, .send, .publish]

theorem sitesFail_finalised :
    (keeping true).Runs (Careful true) (newManager, {}) sitesFail ∧
      Finalised true newManager.history ((keeping true).after (newManager, {}) sitesFail) := by
  have hrun : (keeping true).Runs (Careful true) (newManager, {}) sitesFail := by
    have hsep : ∀ (m : Manager) (b : Books) (i : Attempt), m.Separate true →
        Careful true (m, b) (.inner i "new") := fun _ _ _ h => ⟨trivial, fun _ _ _ => h⟩
    exact ⟨⟨⟨by decide, rfl, by decide⟩, trivial, trivial⟩,
      ⟨⟨⟨_, rfl⟩, rfl⟩, hsep _ _ _ (by decide)⟩, ⟨⟨_, _, _, rfl⟩, trivial, trivial⟩,
      ⟨⟨_, _, _, rfl, rfl⟩, trivial, trivial⟩, ⟨rfl, trivial, trivial⟩,
      ⟨⟨by decide, rfl, by decide⟩, trivial, trivial⟩,
      ⟨⟨⟨_, rfl⟩, rfl⟩, hsep _ _ _ (by decide)⟩, ⟨⟨_, _, _, rfl⟩, trivial, trivial⟩,
      ⟨⟨_, _, _, rfl, rfl⟩, trivial, trivial⟩, ⟨rfl, trivial, trivial⟩,
      ⟨rfl, trivial, trivial⟩, ⟨⟨⟨_, rfl⟩, rfl⟩, hsep _ _ _ (by decide)⟩,
      ⟨⟨_, _, _, rfl⟩, trivial, trivial⟩, ⟨⟨_, _, _, rfl, rfl⟩, trivial, trivial⟩,
      ⟨rfl, trivial, trivial⟩, ⟨rfl, trivial, trivial⟩,
      ⟨⟨⟨_, rfl⟩, rfl⟩, hsep _ _ _ (by decide)⟩, ⟨⟨_, _, rfl⟩, trivial, trivial⟩,
      ⟨⟨_, _, _, rfl⟩, trivial, trivial⟩, ⟨⟨_, _, _, rfl, rfl⟩, trivial, trivial⟩, trivial⟩
  exact ⟨hrun, runs_finalised true newManager_fresh hrun⟩

def bothSources : List Manager.Act :=
  counting .agents 5 ++ counting .csAgents 3 ++
    [.finish (attempt .agents) .completed, .clear (attempt .agents),
      .inner (attempt .agents) "new", .send, .publish,
      .finish (attempt .csAgents) .completed, .clear (attempt .csAgents),
      .inner (attempt .csAgents) "new"]

/-- The run shows three agents, not eight. -/
theorem both_sources_overwritten :
    ¬∀ (m : Manager) (acts : List Manager.Act), m.Fresh →
      (keeping true).Runs Recounted (m, {}) acts →
      Finalised true m.history ((keeping true).after (m, {}) acts) := by
  intro hclaim
  have hrun : (keeping true).Runs Recounted (newManager, {}) bothSources :=
    ⟨⟨⟨by decide, rfl, by decide⟩, trivial⟩, ⟨⟨⟨_, rfl⟩, rfl⟩, trivial⟩,
      ⟨⟨_, _, _, rfl⟩, trivial⟩, ⟨⟨_, _, _, rfl, rfl⟩, trivial⟩, ⟨rfl, trivial⟩,
      ⟨⟨by decide, rfl, by decide⟩, trivial⟩, ⟨⟨⟨_, rfl⟩, rfl⟩, trivial⟩,
      ⟨⟨_, _, _, rfl⟩, trivial⟩, ⟨⟨_, _, _, rfl, rfl⟩, trivial⟩, ⟨rfl, trivial⟩,
      ⟨rfl, trivial⟩, ⟨rfl, trivial⟩, ⟨⟨⟨_, rfl⟩, rfl⟩, trivial⟩,
      ⟨⟨_, _, _, rfl⟩, trivial⟩, ⟨⟨_, _, _, rfl, rfl⟩, trivial⟩,
      ⟨rfl, trivial⟩, ⟨rfl, trivial⟩, ⟨⟨⟨_, rfl⟩, rfl⟩, trivial⟩, trivial⟩
  have hfinal := hclaim newManager bothSources newManager_fresh hrun
  obtain ⟨c, hc⟩ : ∃ c, ((keeping true).after (newManager, {}) bothSources).2.closings = [c] ∧
      (c.run.counts .agents).synced = 3 ∧ total true c.report Tally.synced .agents = 8 :=
    ⟨_, rfl, by decide, by decide⟩
  have hsum := (hfinal.right c (by simp [hc.1])).synced .agents
  rw [hc.2.1, hc.2.2] at hsum
  cases hsum

end TwoPhases

end Sentora.Progress
