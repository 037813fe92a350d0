import Sentora.Sync.Workers

/-!
# One worker for each phase

Whether two workers can be in `_execute` of the same phase, and what a worker
that starts does to the runs of the others.

The clean-up takes a checkpoint for the trace of a dead run.  The runs that are
alive save checkpoints too, so that it deletes the locks they hold.
-/

namespace Sentora.Workers

open Lib Locks

variable {W P : Type}

section Objects

variable {ι : Type} {l l' : Locks.State ι} {i : ι}

/-- A heartbeat task runs only for an object with `_acquired` set. -/
def Flagged (l : Locks.State ι) : Prop :=
  ∀ i, (l.object i).heartbeatTask ≠ none → (l.object i).acquired = true

/-- What is done for `i` leaves the other objects and their document. -/
structure Others (l l' : Locks.State ι) (i : ι) : Prop where
  object : ∀ j, j ≠ i → l'.object j = l.object j
  held : ∀ j, j ≠ i → l.Held j → l'.Held j

theorem Others.refl (l : Locks.State ι) (i : ι) : Others l l i := ⟨fun _ _ => rfl, fun _ _ => id⟩

theorem Flagged.of_others (h : Flagged l) (hothers : Others l l' i)
    (hi : (l'.object i).heartbeatTask ≠ none → (l'.object i).acquired = true) : Flagged l' := by
  intro j hj
  by_cases hij : j = i
  · subst hij
    exact hi hj
  · rw [hothers.object j hij] at hj ⊢
    exact h j hj

theorem Leased.held {ttl : ι → Nat} (h : Leased ttl l)
    (htask : (l.object i).heartbeatTask ≠ none) : l.Held i := by
  obtain ⟨due, hdue⟩ := Option.ne_none_iff_exists'.1 htask
  obtain ⟨hnow, d, hd, howner, hlt⟩ := (h i).beating due hdue
  exact ⟨d, hd, howner, hnow.trans_lt hlt⟩

variable [DecidableEq ι] {ttl : ι → Nat} {act : Locks.Act ι}

theorem others_put (l : Locks.State ι) (i : ι) (o : DistributedLock) : Others l (l.put i o) i :=
  ⟨fun _ hj => State.put_object_of_ne hj .., fun _ _ h => h⟩

theorem others_next (hleased : Leased ttl l) (henabled : Locks.Enabled l act)
    (hsubject : act.subject? = some i) : Others l (Locks.next ttl l act) i where
  object j hj := next_object ttl (by rw [hsubject]; simpa using hj.symm)
  held j hj h := by
    refine h.next hleased henabled ?_ ?_
    · rintro rfl
      exact hj (by simpa [Locks.Act.subject?] using hsubject)
    · rintro d rfl
      cases hsubject

theorem Flagged.next (h : Flagged l) (hleased : Leased ttl l) (henabled : Locks.Enabled l act) :
    Flagged (Locks.next ttl l act) := by
  intro i htask
  have hi := h i
  by_cases hsubject : act.subject? = some i
  · cases act with
    | expire | tick _ => cases hsubject
    | acquire j | release j | delete j =>
      cases hsubject
      simp_all [Locks.next, acquire, Locks.release, deleteOne]
    | heartbeatFails j applied =>
      cases hsubject
      simp [Locks.next, heartbeatFails] at htask
    | clear j =>
      cases hsubject
      have hnone := (hleased i).releasing (.inr henabled)
      simp [Locks.next, clear, hnone] at htask
    | insert j =>
      cases hsubject
      simp only [Locks.next, insertOne] at htask ⊢
      split at htask <;> try split at htask
      all_goals simp_all
    | takeOver j =>
      cases hsubject
      simp only [Locks.next, takeOver] at htask ⊢
      split at htask <;> try split at htask
      all_goals simp_all
    | answer j =>
      cases hsubject
      simp only [Locks.next, Locks.answer] at htask ⊢
      split at htask <;> try split at htask
      all_goals simp_all
    | heartbeat j =>
      cases hsubject
      have hsome : (l.object i).heartbeatTask = some l.now := henabled
      obtain ⟨d, hd, howner, -⟩ := hleased.owner hsome
      simp [Locks.next, heartbeat_of_owner hd howner, hi (by simp [hsome])]
  · rw [next_object ttl hsubject] at htask ⊢
    exact hi htask

theorem others_deleteOne (l : Locks.State ι) (i : ι) : Others l (deleteOne i l) i where
  object j hj := State.put_object_of_ne hj ..
  held j hj h := by
    obtain ⟨d, hd, howner, hlive⟩ := h
    refine ⟨d, ?_, howner, hlive⟩
    simp [deleteOne, State.put, hd, howner, hj]

end Objects

def Stage.beats : Stage W P → Bool
  | .executing | .clearing | .closing => true
  | _ => false

def Stage.holds : Stage W P → Bool
  | .executing | .clearing | .closing | .stopping => true
  | _ => false

theorem Stage.beats_or {st : Stage W P} (h : st.holds = true) :
    st.beats = true ∨ st = .stopping := by
  cases st <;> simp_all [Stage.beats, Stage.holds]

/-- What is right about a run, its lock object, and the object its runner knows. -/
structure Fine (l : Locks.State (Attempt W P)) (dist : Option (Attempt W P)) (i : Attempt W P)
    (st : Stage W P) : Prop where
  beating : st.beats = true → (l.object i).heartbeatTask ≠ none
  stopping : st = .stopping → (l.object i).acquired = true ∧ l.Held i
  own : st.holds = true → dist = none ∨ dist = some i
  releasing : ∀ lock, st = .deleting lock ∨ st = .deleted lock →
    lock = i ∧ (l.object i).heartbeatTask = none

def Stage.idle : Stage W P → Bool
  | .unused | .resuming | .discarding | .waiting | .acquiring | .returned => true
  | _ => false

section

variable {l l' : Locks.State (Attempt W P)} {dist dist' : Option (Attempt W P)}
  {i j : Attempt W P} {st : Stage W P}

theorem Fine.of_idle (h : st.idle = true) : Fine l dist i st := by
  refine ⟨?_, ?_, ?_, ?_⟩ <;> cases st <;> simp_all [Stage.idle, Stage.beats, Stage.holds]

theorem Fine.others (h : Fine l dist j st) (hothers : Others l l' i) (hj : j ≠ i)
    (hdist : dist' = dist ∨ dist' = none ∨ st.holds = false) : Fine l' dist' j st := by
  refine ⟨?_, ?_, ?_, ?_⟩
  · rw [hothers.object j hj]
    exact h.beating
  · intro hst
    rw [hothers.object j hj]
    exact ⟨(h.stopping hst).1, hothers.held j hj (h.stopping hst).2⟩
  · intro hholds
    obtain rfl | rfl | hfree := hdist
    · exact h.own hholds
    · exact .inl rfl
    · rw [hfree] at hholds
      cases hholds
  · rw [hothers.object j hj]
    exact h.releasing

end

structure World.Sound (w : World W P) : Prop where
  leased : ∀ p, Leased ttlSeconds (w.locks p)
  flagged : ∀ p, Flagged (w.locks p)
  fine : ∀ i, Fine (w.locks i.phase) (w.runner i.runner).distLock i (w.stage i)

variable {w w' : World W P} {i j : Attempt W P}

theorem World.Sound.held (h : w.Sound) (hholds : (w.stage i).holds = true) :
    (w.locks i.phase).Held i := by
  obtain hbeats | hstopping := Stage.beats_or hholds
  · exact Leased.held (h.leased i.phase) ((h.fine i).beating hbeats)
  · exact ((h.fine i).stopping hstopping).2

theorem World.Sound.unique (h : w.Sound) (hi : (w.stage i).holds = true)
    (hj : (w.stage j).holds = true) (hphase : i.phase = j.phase) : i = j := by
  have hheld := h.held hj
  rw [← hphase] at hheld
  exact (h.held hi).unique hheld

theorem World.Sound.acquired (h : w.Sound) (hholds : (w.stage i).holds = true) :
    ((w.locks i.phase).object i).acquired = true := by
  obtain hbeats | hstopping := Stage.beats_or hholds
  · exact h.flagged i.phase i ((h.fine i).beating hbeats)
  · exact ((h.fine i).stopping hstopping).1

/-- What is done for one run. -/
theorem World.Sound.step (h : w.Sound) (i : Attempt W P)
    (hlocks : ∀ p, p ≠ i.phase → w'.locks p = w.locks p)
    (hleased : Leased ttlSeconds (w'.locks i.phase)) (hflagged : Flagged (w'.locks i.phase))
    (hothers : Others (w.locks i.phase) (w'.locks i.phase) i)
    (hstage : ∀ j, j ≠ i → w'.stage j = w.stage j)
    (hdist : ∀ j, j ≠ i → (w'.runner j.runner).distLock = (w.runner j.runner).distLock ∨
      (w'.runner j.runner).distLock = none ∨ (w.stage j).holds = false)
    (hi : Fine (w'.locks i.phase) (w'.runner i.runner).distLock i (w'.stage i)) : w'.Sound where
  leased p := by
    by_cases hp : p = i.phase
    · exact hp ▸ hleased
    · exact hlocks p hp ▸ h.leased p
  flagged p := by
    by_cases hp : p = i.phase
    · exact hp ▸ hflagged
    · exact hlocks p hp ▸ h.flagged p
  fine j := by
    by_cases hj : j = i
    · exact hj ▸ hi
    · rw [hstage j hj]
      by_cases hp : j.phase = i.phase
      · rw [hp]
        exact (hp ▸ h.fine j).others hothers hj (hdist j hj)
      · rw [hlocks _ hp]
        exact (h.fine j).others (.refl _ i) hj (hdist j hj)

section Steps

variable [DecidableEq P]

theorem World.setLocks_self (w : World W P) (p : P) : w.setLocks p (w.locks p) = w := by
  simp [World.setLocks]

variable [DecidableEq W]

/-- An `acquire` that has won returns in time for its first heartbeat. -/
def InTime (w : World W P) : Act W P → Prop
  | .answer i => Locks.InTime ttlSeconds (w.locks i.phase) (.answer i)
  | _ => True

/-- The clock does not reach the expiry of a document whose owner's heartbeat
task has been cancelled and whose `release` comes next. -/
def Renewed (w : World W P) : Act W P → Prop
  | .tick d => ∀ p, ∀ doc ∈ (w.locks p).doc, w.stage doc.ownerId = .stopping →
      (w.locks p).now + d < doc.expiresAt
  | _ => True

/-- No lock object in a live process has this lock, or has won it just now. -/
def Abandoned (w : World W P) (p : P) : Prop :=
  ∀ i, ((w.locks p).object i).acquired = false ∧ ((w.locks p).object i).call.won? = none

/-- A worker that starts deletes the locks of dead processes. -/
def CleansUp (w : World W P) : Act W P → Prop
  | .unlock _ p => Abandoned w p
  | _ => True

theorem World.setRunner_self (w : World W P) (i : Attempt W P) :
    w.setRunner i (w.runner i.runner) = w := by
  simp [World.setRunner]

theorem World.setStage_self (w : World W P) (i : Attempt W P) : w.setStage i (w.stage i) = w := by
  simp [World.setStage]

theorem World.lockAct_setLocks (w : World W P) (p : P) (l : Locks.State (Attempt W P))
    (act : Locks.Act (Attempt W P)) :
    (w.setLocks p l).lockAct p act = w.setLocks p (Locks.next ttlSeconds l act) := by
  simp [World.lockAct, World.setLocks]

section Become

variable {l : Locks.State (Attempt W P)} {r : Runner W P} {st : Stage W P}

theorem World.Sound.become (h : w.Sound) (hleased : Leased ttlSeconds l) (hflagged : Flagged l)
    (hothers : Others (w.locks i.phase) l i)
    (hdist : r.distLock = (w.runner i.runner).distLock ∨ r.distLock = none ∨
      ∀ j, j ≠ i → j.phase = i.phase → (w.stage j).holds = false)
    (hi : Fine l r.distLock i st) :
    (((w.setLocks i.phase l).setRunner i r).setStage i st).Sound := by
  refine h.step i (fun p hp => ?_) ?_ ?_ ?_ (fun j hj => ?_) (fun j hj => ?_) ?_
  · exact Function.update_of_ne hp ..
  · simpa [World.setLocks, World.setRunner, World.setStage] using hleased
  · simpa [World.setLocks, World.setRunner, World.setStage] using hflagged
  · simpa [World.setLocks, World.setRunner, World.setStage] using hothers
  · exact Function.update_of_ne hj ..
  · by_cases hr : j.runner = i.runner
    · have hphase : j.phase = i.phase := congrArg Prod.snd hr
      simp only [World.setStage, World.setRunner, World.setLocks, hr, Function.update_self]
      exact hdist.imp_right (.imp_right fun hfree => hfree j hj hphase)
    · left
      simp [World.setStage, World.setRunner, World.setLocks, hr]
  · simpa [World.setLocks, World.setRunner, World.setStage] using hi

theorem World.Sound.setStageLocks (h : w.Sound) (hleased : Leased ttlSeconds l)
    (hflagged : Flagged l) (hothers : Others (w.locks i.phase) l i)
    (hi : Fine l (w.runner i.runner).distLock i st) :
    ((w.setLocks i.phase l).setStage i st).Sound := by
  have hsound := h.become (r := w.runner i.runner) hleased hflagged hothers (.inl rfl) hi
  rwa [show (w.setLocks i.phase l).setRunner i (w.runner i.runner) = _ from
    World.setRunner_self _ i] at hsound

theorem World.Sound.setLocks (h : w.Sound) (hleased : Leased ttlSeconds l)
    (hflagged : Flagged l) (hothers : Others (w.locks i.phase) l i)
    (hi : Fine l (w.runner i.runner).distLock i (w.stage i)) :
    (w.setLocks i.phase l).Sound := by
  have hsound := h.setStageLocks hleased hflagged hothers hi
  rwa [show (w.setLocks i.phase l).setStage i (w.stage i) = _ from
    World.setStage_self _ i] at hsound

theorem World.Sound.setStageRunner (h : w.Sound)
    (hdist : r.distLock = (w.runner i.runner).distLock ∨ r.distLock = none)
    (hi : Fine (w.locks i.phase) r.distLock i st) : ((w.setRunner i r).setStage i st).Sound := by
  have hsound := h.become (h.leased _) (h.flagged _) (.refl _ i)
    (hdist.imp_right .inl) hi
  rwa [World.setLocks_self] at hsound

theorem World.Sound.setStage (h : w.Sound)
    (hi : Fine (w.locks i.phase) (w.runner i.runner).distLock i st) : (w.setStage i st).Sound := by
  have hsound := h.setStageRunner (.inl rfl) hi
  rwa [World.setRunner_self] at hsound

end Become

/-! ### `trigger` and `resume` -/

theorem World.Sound.trigger (h : w.Sound) : (trigger i w).Sound := by
  unfold Workers.trigger
  split
  · split <;> exact h.setStage (.of_idle rfl)
  · exact h.setStage (.of_idle rfl)

theorem World.Sound.resume (h : w.Sound) : (resume i w).Sound := by
  unfold Workers.resume
  split
  · split <;> exact h.setStage (.of_idle rfl)
  · exact h.setStage (.of_idle rfl)

theorem World.Sound.enter (h : w.Sound) : (enter i w).Sound := by
  unfold Workers.enter
  split
  · exact h.setStage (.of_idle rfl)
  · rw [World.lockAct_setLocks]
    have hnew : Leased ttlSeconds ((w.locks i.phase).put i {}) :=
      (h.leased i.phase).put (fun d hd _ _ => hd)
        ⟨by simp [Call.read?], by simp, by simp, by simp, by simp⟩
    have hothers : Others (w.locks i.phase)
        (acquire i ((w.locks i.phase).put i {})) i :=
      ⟨fun j hj => by simp [acquire, State.put, hj], fun _ _ h => h⟩
    refine h.become hnew.acquire ((h.flagged _).of_others hothers ?_) hothers (.inl rfl)
      (.of_idle rfl)
    simp [Locks.next, acquire]

theorem World.Sound.lockAct (h : w.Sound) {act : Locks.Act (Attempt W P)}
    (hstage : w.stage i = .acquiring) (henabled : Locks.Enabled (w.locks i.phase) act)
    (hact : act = .insert i ∨ act = .takeOver i) : (w.lockAct i.phase act).Sound := by
  have hsubject : act.subject? = some i := by
    obtain rfl | rfl := hact <;> rfl
  have htime : Locks.InTime ttlSeconds (w.locks i.phase) act := by
    obtain rfl | rfl := hact <;> trivial
  exact h.setLocks (leased_keeps _ act henabled htime (h.leased _))
    ((h.flagged _).next (h.leased _) henabled)
    (others_next (h.leased _) henabled hsubject) (.of_idle (by rw [hstage]; rfl))

theorem answer_won {l : Locks.State (Attempt W P)} (hwon : (l.object i).call.won? ≠ none) :
    ((Locks.next ttlSeconds l (.answer i)).object i).heartbeatTask ≠ none := by
  simp only [Locks.next]
  split
  case h_1 t won hcall =>
    cases won with
    | false => simp [hcall, Call.won?] at hwon
    | true => simp [Locks.answer]
  case h_2 hcall =>
    exfalso
    cases h : (l.object i).call with
    | answered t won => exact hcall t won h
    | idle | inserting _ | takingOver _ | deleting | deleted => simp [h, Call.won?] at hwon

theorem World.Sound.answer (h : w.Sound)
    (henabled : Locks.Enabled (w.locks i.phase) (.answer i))
    (htime : Locks.InTime ttlSeconds (w.locks i.phase) (.answer i)) : (answer i w).Sound := by
  have hleased : Leased ttlSeconds (Locks.next ttlSeconds (w.locks i.phase) (.answer i)) :=
    leased_keeps _ _ henabled htime (h.leased i.phase)
  have hflagged := (h.flagged i.phase).next (h.leased _) henabled
  have hothers := others_next (h.leased i.phase) henabled rfl
  unfold Workers.answer
  split
  · exact h.become hleased hflagged hothers (.inl rfl) (.of_idle rfl)
  · next hwon =>
    refine h.become hleased hflagged hothers (.inr (.inr fun j hj hphase => ?_))
      ⟨fun _ => answer_won hwon, by simp, fun _ => .inr rfl, by simp⟩
    -- no other run has the lock that `i` has won
    cases hholds : (w.stage j).holds with
    | false => rfl
    | true =>
      obtain ⟨t, hcall⟩ : ∃ t, ((w.locks i.phase).object i).call = .answered t true := by
        cases hc : ((w.locks i.phase).object i).call with
        | answered t won =>
          cases won with
          | true => exact ⟨t, rfl⟩
          | false => simp [hc, Call.won?] at hwon
        | idle | inserting _ | takingOver _ | deleting | deleted => simp [hc, Call.won?] at hwon
      have hi : (w.locks i.phase).Held i := (h.leased i.phase).told hcall htime
      exact absurd ((hphase ▸ h.held hholds : (w.locks i.phase).Held j).unique hi) hj

/-! ### `_safe_run` -/

theorem World.Sound.finish (h : w.Sound) (hstage : w.stage i = .executing) (outcome : Status) :
    (finish i outcome w).Sound := by
  have hfine := h.fine i
  rw [hstage] at hfine
  refine h.setStageRunner (.inl rfl) ?_
  split
  · exact ⟨fun _ => hfine.beating rfl, by simp, fun _ => hfine.own rfl, by simp⟩
  · exact ⟨fun _ => hfine.beating rfl, by simp, fun _ => hfine.own rfl, by simp⟩

theorem World.Sound.clear (h : w.Sound)
    (hstage : w.stage i = .discarding ∨ w.stage i = .clearing) :
    ((w.clearCheckpoint (.phase i.phase)).setStage i
      (if w.stage i = .discarding then .returned else .closing)).Sound := by
  have hclear : (w.clearCheckpoint (.phase i.phase)).Sound := ⟨h.leased, h.flagged, h.fine⟩
  refine hclear.setStage ?_
  obtain hstage | hstage := hstage
  · rw [if_pos hstage]
    exact .of_idle rfl
  · have hfine := h.fine i
    rw [hstage] at hfine ⊢
    exact ⟨fun _ => hfine.beating rfl, by simp, fun _ => hfine.own rfl, by simp⟩

theorem World.Sound.stop (h : w.Sound) (hstage : w.stage i = .closing) : (stop i w).Sound := by
  have hfine := h.fine i
  have hheld := h.held (i := i) (by rw [hstage]; rfl)
  have hacquired := h.acquired (i := i) (by rw [hstage]; rfl)
  rw [hstage] at hfine
  unfold Workers.stop
  split
  case h_1 lock hlock =>
    obtain hnone | hown := hfine.own rfl
    · rw [hnone] at hlock
      cases hlock
    rw [hown, Option.some.injEq] at hlock
    subst hlock
    have hsound := (h.leased i.phase) i
    refine h.setStageLocks ?_ ?_ (others_put _ i _) ?_
    · refine (h.leased i.phase).put (fun d hd _ _ => hd)
        ⟨hsound.reading, by simp, by simp, fun t ht => ⟨rfl, (hsound.won t ht).2⟩, by simp⟩
    · exact (h.flagged _).of_others (others_put _ i _) (by simp)
    · exact ⟨by simp [Stage.beats], fun _ => ⟨by simpa using hacquired, hheld⟩, fun _ => .inr hown,
        by simp⟩
  case h_2 => exact h.setStage (.of_idle rfl)

theorem World.Sound.release (h : w.Sound) (hstage : w.stage i = .stopping) :
    (release i w).Sound := by
  have hfine := h.fine i
  rw [hstage] at hfine
  unfold Workers.release
  split
  case h_1 lock hlock =>
    obtain hnone | hown := hfine.own rfl
    · rw [hnone] at hlock
      cases hlock
    rw [hown, Option.some.injEq] at hlock
    subst hlock
    have hleased : Leased ttlSeconds (Locks.release i (w.locks i.phase)) :=
      (h.leased i.phase).release
    have hothers : Others (w.locks i.phase) (Locks.release i (w.locks i.phase)) i := others_put ..
    have hflagged : Flagged (Locks.release i (w.locks i.phase)) :=
      (h.flagged _).of_others hothers (by simp [Locks.release])
    split
    · refine h.setStageLocks hleased hflagged hothers ⟨by simp [Stage.beats], by simp,
        by simp [Stage.holds], ?_⟩
      intro lock hlock
      simp only [Stage.deleting.injEq, reduceCtorEq, or_false] at hlock
      exact ⟨hlock.symm, by simp [Locks.next, Locks.release]⟩
    · exact h.become hleased hflagged hothers (.inr (.inl rfl)) (.of_idle rfl)
  case h_2 => exact h.setStage (.of_idle rfl)

theorem World.Sound.delete (h : w.Sound) {lock : Attempt W P}
    (hstage : w.stage i = .deleting lock) : (delete i lock w).Sound := by
  obtain ⟨rfl, htask⟩ := (h.fine i).releasing lock (.inl hstage)
  have hothers := others_deleteOne (w.locks lock.phase) lock
  refine h.setStageLocks ((h.leased _).deleteOne htask)
    ((h.flagged _).of_others hothers (by simp [Locks.next, deleteOne, htask])) hothers
    ⟨by simp [Stage.beats], by simp, by simp [Stage.holds], ?_⟩
  intro lock' hlock'
  simp only [reduceCtorEq, Stage.deleted.injEq, false_or] at hlock'
  exact ⟨hlock'.symm, by simpa [Locks.next, deleteOne] using htask⟩

theorem World.Sound.drop (h : w.Sound) {lock : Attempt W P}
    (hstage : w.stage i = .deleted lock) : (drop i lock w).Sound := by
  obtain ⟨rfl, htask⟩ := (h.fine i).releasing lock (.inr hstage)
  have hothers := others_put (w.locks lock.phase) lock
    { (w.locks lock.phase).object lock with call := .idle, acquired := false }
  exact h.become (h.leased _).clear
    ((h.flagged _).of_others hothers (by simp [Locks.next, Locks.clear, htask])) hothers
    (.inr (.inl rfl)) (.of_idle rfl)

theorem World.Sound.heartbeat (h : w.Sound)
    (henabled : Locks.Enabled (w.locks i.phase) (.heartbeat i)) :
    (w.lockAct i.phase (.heartbeat i)).Sound := by
  have hfine := h.fine i
  have hsome : ((w.locks i.phase).object i).heartbeatTask = some (w.locks i.phase).now := henabled
  obtain ⟨d, hd, howner, -⟩ := (h.leased i.phase).owner hsome
  have hnext : Locks.next ttlSeconds (w.locks i.phase) (.heartbeat i) = _ :=
    heartbeat_of_owner hd howner
  refine h.setLocks (leased_keeps _ _ henabled trivial (h.leased _))
    ((h.flagged _).next (h.leased _) henabled) (others_next (h.leased _) henabled rfl) ?_
  refine ⟨fun _ => ?_, fun hst => ⟨?_, ?_⟩, hfine.own, fun lock hlock => ?_⟩
  · simp [hnext]
  · simpa [hnext] using (hfine.stopping hst).1
  · exact (hfine.stopping hst).2.next (h.leased _) henabled (by simp) (by simp)
  · have hnone := (hfine.releasing lock hlock).2
    rw [hsome] at hnone
    cases hnone

theorem World.Sound.lockExpire (h : w.Sound) (p : P) : (w.lockAct p .expire).Sound := by
  have hobject : ∀ q i, ((w.lockAct p .expire).locks q).object i = (w.locks q).object i := by
    intro q i
    by_cases hq : q = p
    · subst hq
      simp [World.lockAct, World.setLocks, Locks.next]
    · simp [World.lockAct, World.setLocks, hq]
  have hheld : ∀ q i, (w.locks q).Held i → ((w.lockAct p .expire).locks q).Held i := by
    intro q i hi
    by_cases hq : q = p
    · subst hq
      have hnext : (Locks.next ttlSeconds (w.locks q) .expire).Held i :=
        hi.next (h.leased q) trivial (by simp) (by simp)
      simpa [World.lockAct, World.setLocks] using hnext
    · simpa [World.lockAct, World.setLocks, hq] using hi
  refine ⟨fun q => ?_, fun q i => ?_, fun i => ?_⟩
  · by_cases hq : q = p
    · subst hq
      simpa [World.lockAct, World.setLocks, Locks.next] using (h.leased q).expire
    · simpa [World.lockAct, World.setLocks, hq] using h.leased q
  · rw [hobject]
    exact h.flagged q i
  · refine ⟨?_, fun hst => ?_, (h.fine i).own, ?_⟩
    · rw [hobject]
      exact (h.fine i).beating
    · rw [hobject]
      exact ⟨((h.fine i).stopping hst).1, hheld _ i ((h.fine i).stopping hst).2⟩
    · rw [hobject]
      exact (h.fine i).releasing

theorem World.Sound.tick (h : w.Sound) {d : Nat}
    (henabled : ∀ p, Locks.Enabled (w.locks p) (.tick d)) (hrenewed : Renewed w (.tick d)) :
    (next w (.tick d)).Sound where
  leased p := (h.leased p).tick (henabled p)
  flagged := h.flagged
  fine i := by
    refine ⟨(h.fine i).beating, fun hst => ⟨((h.fine i).stopping hst).1, ?_⟩, (h.fine i).own,
      (h.fine i).releasing⟩
    obtain ⟨doc, hdoc, rfl, -⟩ := ((h.fine i).stopping hst).2
    exact ⟨doc, hdoc, rfl, hrenewed _ doc hdoc hst⟩

omit [DecidableEq W] in
theorem World.Sound.unlock (h : w.Sound) {p : P} (hp : Abandoned w p) : (unlock p w).Sound := by
  have hnone : ∀ i, ((w.locks p).object i).heartbeatTask = none := by
    intro i
    by_contra hne
    have hflag := h.flagged p i hne
    rw [(hp i).1] at hflag
    cases hflag
  have hobject : ∀ q i, ((Workers.unlock p w).locks q).object i = (w.locks q).object i := by
    intro q i
    by_cases hq : q = p
    · subst hq
      simp [Workers.unlock, World.setLocks]
    · simp [Workers.unlock, World.setLocks, hq]
  refine ⟨fun q => ?_, fun q i => ?_, fun i => ?_⟩
  · by_cases hq : q = p
    · subst hq
      intro i
      have hsound := h.leased q i
      simp only [Workers.unlock, World.setLocks, Function.update_self]
      refine ⟨hsound.reading, ?_, hsound.margin, ?_, hsound.releasing⟩
      · simp [hnone i]
      · intro t ht
        have hwon := (hp i).2
        simp [ht, Call.won?] at hwon
    · simpa [Workers.unlock, World.setLocks, hq] using h.leased q
  · rw [hobject]
    exact h.flagged q i
  · refine ⟨?_, fun hst => ?_, (h.fine i).own, ?_⟩
    · rw [hobject]
      exact (h.fine i).beating
    · -- a run that holds the lock of this phase is none that is abandoned
      obtain ⟨hacquired, hheld⟩ := (h.fine i).stopping hst
      rw [hobject]
      refine ⟨hacquired, ?_⟩
      by_cases hq : i.phase = p
      · rw [hq, (hp i).1] at hacquired
        cases hacquired
      · simpa [Workers.unlock, World.setLocks, hq] using hheld
    · rw [hobject]
      exact (h.fine i).releasing

theorem World.Sound.crash (h : w.Sound) (x : W) : (crash x w).Sound := by
  have hother : ∀ (p : P) (i : Attempt W P), i.worker ≠ x →
      ((Workers.crash x w).locks p).object i = (w.locks p).object i := by
    intro p i hi
    simp [Workers.crash, hi]
  have hdead : ∀ (p : P) (i : Attempt W P), i.worker = x →
      ((Workers.crash x w).locks p).object i = {} := by
    intro p i hi
    simp [Workers.crash, hi]
  refine ⟨fun p i => ?_, fun p i => ?_, fun i => ?_⟩
  · by_cases hi : i.worker = x
    · rw [hdead p i hi]
      exact ⟨by simp [Call.read?], by simp, by simp, by simp, by simp⟩
    · rw [hother p i hi]
      exact h.leased p i
  · by_cases hi : i.worker = x
    · simp [hdead p i hi]
    · rw [hother p i hi]
      exact h.flagged p i
  · by_cases hi : i.worker = x
    · refine .of_idle ?_
      cases hst : w.stage i <;> simp [Workers.crash, World.setWorker, hi, hst, Stage.idle]
    · have hfine := h.fine i
      have hstage : (Workers.crash x w).stage i = w.stage i := by
        simp [Workers.crash, World.setWorker, hi]
      have hrunner : (Workers.crash x w).runner i.runner = w.runner i.runner := by
        simp [Workers.crash, Attempt.runner, hi]
      rw [hstage, hrunner]
      refine ⟨?_, fun hst => ?_, hfine.own, ?_⟩
      · rw [hother _ i hi]
        exact hfine.beating
      · rw [hother _ i hi]
        exact hfine.stopping hst
      · rw [hother _ i hi]
        exact hfine.releasing

def workers : Machine (World W P) (Act W P) := ⟨Enabled, next⟩

def Careful (w : World W P) (act : Act W P) : Prop :=
  InTime w act ∧ Renewed w act ∧ CleansUp w act

theorem sound_keeps : (workers (W := W) (P := P)).Keeps Careful World.Sound := by
  intro w act henabled hgood h
  obtain ⟨htime, hrenewed, hcleans⟩ := hgood
  cases act with
  | start x | findCurrent x | serve x | save i c => exact ⟨h.leased, h.flagged, h.fine⟩
  | persist x id failed => exact ⟨h.leased, h.flagged, h.fine⟩
  | countPhases x =>
    simp only [workers, next]
    split <;> exact ⟨h.leased, h.flagged, h.fine⟩
  | mark x =>
    simp only [workers, next]
    split <;> exact ⟨h.leased, h.flagged, h.fine⟩
  | unlock x p => exact h.unlock hcleans
  | crash x => exact h.crash x
  | trigger i => exact h.trigger
  | resume i => exact h.resume
  | enter i => exact h.enter
  | insert i => exact h.lockAct henabled.1 henabled.2 (.inl rfl)
  | takeOver i => exact h.lockAct henabled.1 henabled.2 (.inr rfl)
  | answer i => exact h.answer henabled.2 htime
  | finish i outcome => exact h.finish henabled.1 outcome
  | clear i => exact h.clear henabled
  | stop i => exact h.stop henabled
  | release i => exact h.release henabled
  | delete i =>
    simp only [workers, next]
    split
    case h_1 lock hstage => exact h.delete hstage
    case h_2 => exact h
  | drop i =>
    simp only [workers, next]
    split
    case h_1 lock hstage => exact h.drop hstage
    case h_2 => exact h
  | heartbeat i => exact h.heartbeat henabled
  | expire p => exact h.lockExpire p
  | tick d => exact h.tick henabled hrenewed

def World.Stored (w : World W P) : Prop := ∀ r ∈ w.syncRuns, r.status ≠ .running

omit [DecidableEq W] [DecidableEq P] in
theorem World.Stored.markRuns (h : w.Stored) (hasResumable : Bool) :
    markRuns hasResumable w.syncRuns = w.syncRuns :=
  (List.map_congr_left fun r hr => if_neg (h r hr)).trans (List.map_id _)

theorem World.Stored.mark (h : w.Stored) (x : W) :
    (next w (.mark x)).syncRuns = w.syncRuns := by
  simp only [next]
  split
  case h_1 hasResumable _ => exact h.markRuns hasResumable
  case h_2 => rfl

theorem stored_keeps : (workers (W := W) (P := P)).Keeps Careful World.Stored := by
  intro w act _ _ h
  cases act with
  | mark x =>
    intro r hr
    rw [show ((workers.next w (.mark x)).syncRuns) = w.syncRuns from h.mark x] at hr
    exact h r hr
  | persist x id failed =>
    intro r hr
    obtain rfl | hr := List.mem_cons.1 hr
    · cases failed <;> simp
    · exact h r (List.mem_filter.1 hr).1
  | countPhases x | trigger i | resume i | delete i | drop i | stop i =>
    simp only [workers, next, Workers.trigger, Workers.resume, Workers.stop]
    split <;> exact h
  | enter i | answer i =>
    simp only [workers, next, Workers.enter, Workers.answer]
    split <;> exact h
  | release i =>
    simp only [workers, next, Workers.release]
    split
    · split <;> exact h
    · exact h
  | start x | findCurrent x | unlock x p | serve x | crash x | insert i | takeOver i | save i c
  | finish i outcome | clear i | heartbeat i | expire p | tick d => exact h

structure World.Fresh (w : World W P) : Prop where
  worker : ∀ x, w.worker x = .down
  runner : ∀ r, w.runner r = {}
  stage : ∀ i, w.stage i = .unused
  locks : ∀ p, (w.locks p).Fresh
  stored : w.Stored

omit [DecidableEq W] [DecidableEq P] in
theorem World.Fresh.sound (h : w.Fresh) : w.Sound where
  leased p := ((h.locks p).safe ttlSeconds).1.1
  flagged p i := by simp [h.locks p i]
  fine i := by
    rw [h.stage i]
    exact .of_idle rfl

/-- At most one run of a phase is in `_execute`. -/
def World.OneWorker (w : World W P) : Prop :=
  ∀ i j, w.stage i = .executing → w.stage j = .executing → i.phase = j.phase → i = j

/-- A start-up neither deletes the lock of a run in `_execute` nor marks a run. -/
def Harmless (w : World W P) : Act W P → Prop
  | .unlock _ p => ∀ doc ∈ (w.locks p).doc, w.stage doc.ownerId = .executing →
      doc.ownerId.phase ≠ p
  | .mark x => (next w (.mark x)).syncRuns = w.syncRuns
  | _ => True

theorem World.Sound.harmless (h : w.Sound) (hstored : w.Stored) {act : Act W P}
    (hgood : Careful w act) : Harmless w act := by
  cases act with
  | mark x => exact hstored.mark x
  | unlock x p =>
    rintro doc - hstage rfl
    have hacquired := h.acquired (i := doc.ownerId) (by rw [hstage]; rfl)
    rw [(hgood.2.2 doc.ownerId).1] at hacquired
    cases hacquired
  | _ => trivial

/-- In every run in which a start-up deletes locks of dead processes only, and
locks are refreshed in time, there is one worker for each phase. -/
theorem one_worker {w : World W P} (hw : w.Fresh) {acts : List (Act W P)}
    (hrun : workers.Runs Careful w acts) :
    (workers.after w acts).OneWorker ∧
      ∀ act, workers.Enabled (workers.after w acts) act →
        Careful (workers.after w acts) act → Harmless (workers.after w acts) act := by
  have hsound := sound_keeps.after hrun hw.sound
  have hstored := stored_keeps.after hrun hw.stored
  refine ⟨fun i j hi hj hphase => ?_, fun act _ hgood => hsound.harmless hstored hgood⟩
  exact hsound.unique (by rw [hi]; rfl) (by rw [hj]; rfl) hphase

end Steps

section TwoWorkers

def twoWorkers : World Bool Unit where
  worker _ := .down
  runner _ := {}
  stage _ := .unused
  locks _ := { now := 0, doc := none, object := fun _ => {} }
  checkpoints := []
  syncRuns := []

theorem twoWorkers_fresh : twoWorkers.Fresh where
  worker _ := rfl
  runner _ := rfl
  stage _ := rfl
  locks _ _ := rfl
  stored := by simp [World.Stored, twoWorkers]

def firstRun : Attempt Bool Unit := ⟨true, (), 0⟩

def secondRun : Attempt Bool Unit := ⟨false, (), 0⟩

def firstActs : List (Act Bool Unit) :=
  [.start true, .serve true, .trigger firstRun, .enter firstRun, .insert firstRun,
    .answer firstRun, .save firstRun {}]

def secondActs : List (Act Bool Unit) :=
  [.start false, .findCurrent false, .countPhases false, .mark false, .unlock false (),
    .serve false, .resume secondRun, .enter secondRun, .insert secondRun, .answer secondRun]

/-- The second worker comes after the first one has died. -/
theorem crashed_one_worker :
    workers.Runs Careful twoWorkers (firstActs ++ .crash true :: secondActs) ∧
    (workers.after twoWorkers (firstActs ++ .crash true :: secondActs)).OneWorker ∧
      ∀ act, workers.Enabled
          (workers.after twoWorkers (firstActs ++ .crash true :: secondActs)) act →
        Careful (workers.after twoWorkers (firstActs ++ .crash true :: secondActs)) act →
        Harmless (workers.after twoWorkers (firstActs ++ .crash true :: secondActs)) act := by
  have hdown : ∀ x y : LifeSpan, x = y → y ≠ .down → x ≠ .down := fun x y hxy hy => hxy ▸ hy
  have htime : ∀ t ∈ some 0, 0 + seconds (interval 3600) < t + seconds 3600 := by decide
  have hrun : workers.Runs Careful twoWorkers (firstActs ++ .crash true :: secondActs) := by
    refine ⟨⟨rfl, trivial, trivial, trivial⟩,
      ⟨hdown _ .starting rfl (by decide), trivial, trivial, trivial⟩,
      ⟨⟨rfl, rfl⟩, trivial, trivial, trivial⟩, ⟨⟨rfl, rfl⟩, trivial, trivial, trivial⟩,
      ⟨⟨rfl, rfl⟩, trivial, trivial, trivial⟩,
      ⟨⟨rfl, rfl⟩, htime, trivial, trivial⟩, ⟨rfl, trivial, trivial, trivial⟩,
      ⟨hdown _ .serving rfl (by decide), trivial, trivial, trivial⟩,
      ⟨rfl, trivial, trivial, trivial⟩, ⟨rfl, trivial, trivial, trivial⟩,
      ⟨⟨_, rfl⟩, trivial, trivial, trivial⟩, ⟨⟨_, rfl⟩, trivial, trivial, trivial⟩,
      ⟨rfl, trivial, trivial, ?_⟩, ⟨hdown _ .unlocking rfl (by decide), trivial, trivial, trivial⟩,
      ⟨.inr ⟨rfl, rfl⟩, trivial, trivial, trivial⟩, ⟨⟨rfl, rfl⟩, trivial, trivial, trivial⟩,
      ⟨⟨rfl, rfl⟩, trivial, trivial, trivial⟩,
      ⟨⟨rfl, rfl⟩, htime, trivial, trivial⟩, trivial⟩
    -- nothing of the first worker is left
    rintro ⟨x, p, n⟩
    cases x <;> exact ⟨rfl, rfl⟩
  exact ⟨hrun, one_worker twoWorkers_fresh hrun⟩

/-- The first worker is alive: the second one deletes its lock, and both are in
`_execute`. -/
theorem started_worker_unlocks :
    ¬∀ (w : World Bool Unit) (acts : List (Act Bool Unit)), w.Fresh →
      workers.Runs (fun w act => InTime w act ∧ Renewed w act) w acts →
      (workers.after w acts).OneWorker ∧
        ∀ act, workers.Enabled (workers.after w acts) act →
          Harmless (workers.after w acts) act := by
  intro hclaim
  have hdown : ∀ x y : LifeSpan, x = y → y ≠ .down → x ≠ .down := fun x y hxy hy => hxy ▸ hy
  have htime : ∀ t ∈ some 0, 0 + seconds (interval 3600) < t + seconds 3600 := by decide
  have hrun : workers.Runs (fun w act => InTime w act ∧ Renewed w act) twoWorkers
      (firstActs ++ secondActs) :=
    ⟨⟨rfl, trivial, trivial⟩, ⟨hdown _ .starting rfl (by decide), trivial, trivial⟩,
      ⟨⟨rfl, rfl⟩, trivial, trivial⟩, ⟨⟨rfl, rfl⟩, trivial, trivial⟩,
      ⟨⟨rfl, rfl⟩, trivial, trivial⟩, ⟨⟨rfl, rfl⟩, htime, trivial⟩, ⟨rfl, trivial, trivial⟩,
      ⟨rfl, trivial, trivial⟩, ⟨rfl, trivial, trivial⟩, ⟨⟨_, rfl⟩, trivial, trivial⟩,
      ⟨⟨_, rfl⟩, trivial, trivial⟩, ⟨rfl, trivial, trivial⟩,
      ⟨hdown _ .unlocking rfl (by decide), trivial, trivial⟩, ⟨.inr ⟨rfl, rfl⟩, trivial, trivial⟩,
      ⟨⟨rfl, rfl⟩, trivial, trivial⟩, ⟨⟨rfl, rfl⟩, trivial, trivial⟩,
      ⟨⟨rfl, rfl⟩, htime, trivial⟩, trivial⟩
  obtain ⟨hone, -⟩ := hclaim twoWorkers (firstActs ++ secondActs) twoWorkers_fresh hrun
  have hsame : firstRun = secondRun := hone firstRun secondRun rfl rfl rfl
  exact absurd hsame (by decide)

end TwoWorkers

end Sentora.Workers
