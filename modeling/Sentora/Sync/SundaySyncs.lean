import Sentora.Sync.WeeklySync

/-!
# One full sync a Sunday

When the weekly schedulers start phases once on a Sunday, and try again as long as nothing has
been started.

What a worker knows of a day is what its own calls have started and the date that it read when it
was started; its memory is that, in every run.
-/

namespace Sentora.WeeklySync

open Lib Locks LeaderElection
open Progress (Phase registered)

variable {W : Type} {cfg : Settings} {now now' : Nat} {history : List (Event W)} {v w : W}

def Event.startedOn? : Event W → Option Nat
  | .started _ calledOn => some calledOn
  | .loaded _ _ => none

def Started (history : List (Event W)) (d : Nat) : Prop :=
  ∃ e ∈ history, e.startedOn? = some d

/-- The worker has started a phase in a call of the day, or it has read that day when it was
started. -/
def Knows (history : List (Event W)) (w : W) (d : Nat) : Prop :=
  .started w d ∈ history ∨ .loaded w (some d) ∈ history

def Position.next? : Position → Option Phase
  | .s1 (p :: _) | .cs (p :: _) => some p
  | .creatingS1Client | .s1 [] | .creatingCsClient | .cs [] => none

def Stage.firstStart? (startable : Phase → Bool) : Stage → Option Nat
  | .calling call =>
    if call.phasesStarted = [] ∧ (call.position.next?.any startable) = true then
      some call.calledOn
    else none
  | _ => none

def Stage.today? : Stage → Option Nat
  | .dated today => some today
  | _ => none

section Laws

variable [DecidableEq W] (cfg)

/-- A leader checks on a Sunday and finds no phase running. -/
def Due (s : State W) (w : W) : Prop :=
  (s.worker w).stage.isDated = true ∧ weekday s.now = 6 ∧ isRunning cfg (s.worker w) = false

/-- Two calls of one day do not both start phases. -/
def Once (s : State W) : Act W → Prop
  | .continueCall w _ =>
    ∀ d ∈ (s.worker w).stage.firstStart? fun p => canStart cfg w p s, ¬Started s.history d
  | _ => True

/-- As long as no call of the day has started a phase, a check makes another call. -/
def Retried (s : State W) : Act W → Prop
  | .check w => Due cfg s w → ¬Started s.history (day s.now) →
    ((next cfg s (.check w)).worker w).stage.isCalling = true
  | _ => True

def Lawful (s : State W) (act : Act W) : Prop := Once cfg s act ∧ Retried cfg s act

/-- The day does not change between the two looks at the clock, and the worker knows of a start
on this day exactly if there was one. -/
def Informed (s : State W) : Act W → Prop
  | .check w => Due cfg s w → (s.worker w).stage.today? = some (day s.now) ∧
    (Started s.history (day s.now) ↔ Knows s.history w (day s.now))
  | _ => True

end Laws

theorem not_knows_nil {d : Nat} : ¬Knows ([] : List (Event W)) w d := by
  intro hknows
  cases hknows with
  | inl hmem => cases hmem
  | inr hmem => cases hmem

theorem Knows.cons {d : Nat} (h : Knows history w d) (e : Event W) : Knows (e :: history) w d :=
  h.imp (List.mem_cons_of_mem _) (List.mem_cons_of_mem _)

/-- What happens to one worker is not known to another one. -/
theorem knows_started_of_ne {c d : Nat} (hne : v ≠ w) (h : Knows (.started w c :: history) v d) :
    Knows history v d := by
  rcases h with hmem | hmem
  · cases hmem with
    | head => exact absurd rfl hne
    | tail _ hmem => exact .inl hmem
  · cases hmem with
    | tail _ hmem => exact .inr hmem

theorem knows_loaded_of_ne {date : Option Nat} {d : Nat} (hne : v ≠ w)
    (h : Knows (.loaded w date :: history) v d) : Knows history v d := by
  rcases h with hmem | hmem
  · cases hmem with
    | tail _ hmem => exact .inl hmem
  · cases hmem with
    | head => exact absurd rfl hne
    | tail _ hmem => exact .inr hmem

theorem not_started_loaded {date : Option Nat} {d : Nat} (h : ¬Started history d) :
    ¬Started (.loaded w date :: history) d := by
  intro ⟨e, hmem, he⟩
  cases hmem with
  | head => cases he
  | tail _ hmem => exact h ⟨e, hmem, he⟩

/-- The call has happened as its record says. -/
structure Call.Sound (now : Nat) (history : List (Event W)) (w : W) (memory : Option Nat)
    (call : Call) : Prop where
  today : call.today = call.calledOn
  past : call.calledOn ≤ day now
  older : ∀ m ∈ memory, m ≤ call.calledOn
  started : call.phasesStarted ≠ [] → .started w call.calledOn ∈ history
  unstarted : call.phasesStarted = [] → ¬Started history call.calledOn

def Stage.Sound (now : Nat) (history : List (Event W)) (w : W) (memory : Option Nat) :
    Stage → Prop
  | .down | .starting _ | .loading => ∀ d, ¬Knows history w d
  | .bidding b => b.now ≤ now ∧ now < b.now + seconds 90
  | .dated today | .storing today => today ≤ day now
  | .calling call => call.Sound now history w memory
  | .asleep _ | .leading | .resting _ _ | .stopped => True

/-- A day that the worker knows of is not after the one that it remembers, unless a call is
going to set that one. -/
def Recalls (x : Worker) (d : Nat) : Prop :=
  x.stage = .stopped ∨ (∃ m, x.lastFullSyncDate = some m ∧ d ≤ m) ∨
    ∃ call, x.stage = .calling call ∧ call.phasesStarted ≠ [] ∧ d = call.calledOn

structure Worker.Sound (now : Nat) (history : List (Event W)) (w : W) (x : Worker) : Prop where
  past : ∀ m ∈ x.lastFullSyncDate, m ≤ day now
  known : ∀ m ∈ x.lastFullSyncDate, Knows history w m
  recalled : ∀ d, Knows history w d → Recalls x d
  stage : x.stage.Sound now history w x.lastFullSyncDate

/-- The invariant of the schedulers. -/
structure Kept (s : State W) : Prop where
  stored : ∀ d ∈ s.lastFullSyncDate, d ≤ day s.now
  leads : ∀ w, (s.worker w).stage.isLeader = true → Leads s.now s.claim w
  worker : ∀ w, (s.worker w).Sound s.now s.history w

section OneWorker

variable {x : Worker} {stage : Stage}

theorem Recalls.remembered {d : Nat} (h : Recalls x d) (hstopped : x.stage ≠ .stopped)
    (hcalling : x.stage.isCalling = false) : ∃ m, x.lastFullSyncDate = some m ∧ d ≤ m := by
  rcases h with hstage | hremembered | ⟨call, hstage, -⟩
  · exact absurd hstage hstopped
  · exact hremembered
  · rw [hstage] at hcalling
    cases hcalling

theorem Worker.Sound.move (h : x.Sound now history w)
    (hstage : stage.Sound now history w x.lastFullSyncDate) (hstopped : x.stage ≠ .stopped)
    (hcalling : x.stage.isCalling = false) :
    Worker.Sound now history w { x with stage := stage } where
  past := h.past
  known := h.known
  recalled d hd := .inr (.inl ((h.recalled d hd).remembered hstopped hcalling))
  stage := hstage

theorem Worker.Sound.halt (h : x.Sound now history w) :
    Worker.Sound now history w { x with stage := .stopped } where
  past := h.past
  known := h.known
  recalled _ _ := .inl rfl
  stage := trivial

theorem Worker.Sound.proceed {call : Call} {position : Position} (h : x.Sound now history w)
    (hstage : x.stage = .calling call) :
    Worker.Sound now history w
      { x with stage := .calling { call with position := position } } where
  past := h.past
  known := h.known
  recalled d hd := by
    rcases h.recalled d hd with hstopped | hremembered | ⟨call', hstage', hstarted, hd'⟩
    · rw [hstage] at hstopped
      cases hstopped
    · exact .inr (.inl hremembered)
    · cases hstage.symm.trans hstage'
      exact .inr (.inr ⟨_, rfl, hstarted, hd'⟩)
  stage := by
    have hcall := h.stage
    rw [hstage] at hcall
    exact ⟨hcall.today, hcall.past, hcall.older, hcall.started, hcall.unstarted⟩

section Growing

variable {call : Call} {position : Position} {p : Phase} {running : Phase → Bool}

theorem Worker.Sound.first (h : x.Sound now history w) (hstage : x.stage = .calling call)
    (hnil : call.phasesStarted = []) :
    Worker.Sound now (.started w call.calledOn :: history) w
      { x with
        running := running
        stage := .calling
          { call with position := position, phasesStarted := call.phasesStarted ++ [p] } } where
  past := h.past
  known m hm := (h.known m hm).cons _
  recalled d hd := by
    have hold : Knows history w d → ∃ m, x.lastFullSyncDate = some m ∧ d ≤ m := by
      intro hknows
      rcases h.recalled d hknows with hstopped | hremembered | ⟨call', hstage', hstarted, -⟩
      · rw [hstage] at hstopped
        cases hstopped
      · exact hremembered
      · cases hstage.symm.trans hstage'
        exact absurd hnil hstarted
    rcases hd with hmem | hmem
    · rcases List.mem_cons.mp hmem with hevent | hmem
      · injection hevent with _ hday
        exact .inr (.inr ⟨_, rfl, List.append_ne_nil_of_right_ne_nil _ nofun, hday⟩)
      · exact .inr (.inl (hold (.inl hmem)))
    · cases hmem with
      | tail _ hmem => exact .inr (.inl (hold (.inr hmem)))
  stage := by
    have hcall := h.stage
    rw [hstage] at hcall
    exact ⟨hcall.today, hcall.past, hcall.older, fun _ => List.mem_cons_self,
      fun hnone => absurd hnone (List.append_ne_nil_of_right_ne_nil _ nofun)⟩

theorem Worker.Sound.another (h : x.Sound now history w) (hstage : x.stage = .calling call)
    (hstarted : call.phasesStarted ≠ []) :
    Worker.Sound now history w
      { x with
        running := running
        stage := .calling
          { call with position := position, phasesStarted := call.phasesStarted ++ [p] } } where
  past := h.past
  known := h.known
  recalled d hd := by
    rcases h.recalled d hd with hstopped | hremembered | ⟨call', hstage', -, hday⟩
    · rw [hstage] at hstopped
      cases hstopped
    · exact .inr (.inl hremembered)
    · cases hstage.symm.trans hstage'
      exact .inr (.inr ⟨_, rfl, List.append_ne_nil_of_right_ne_nil _ nofun, hday⟩)
  stage := by
    have hcall := h.stage
    rw [hstage] at hcall
    exact ⟨hcall.today, hcall.past, hcall.older, fun _ => hcall.started hstarted,
      fun hnone => absurd hnone (List.append_ne_nil_of_right_ne_nil _ nofun)⟩

end Growing

theorem Worker.Sound.event {e : Event W} (h : x.Sound now history w)
    (hknows : ∀ d, Knows (e :: history) w d → Knows history w d)
    (hstarted : ∀ call, x.stage = .calling call → ¬Started history call.calledOn →
      ¬Started (e :: history) call.calledOn) : x.Sound now (e :: history) w where
  past := h.past
  known m hm := (h.known m hm).cons e
  recalled d hd := h.recalled d (hknows d hd)
  stage := by
    have hstage := h.stage
    cases hx : x.stage with
    | down | starting _ | loading =>
      rw [hx] at hstage
      exact fun d hd => hstage d (hknows d hd)
    | calling call =>
      rw [hx] at hstage
      exact ⟨hstage.today, hstage.past, hstage.older,
        fun hne => List.mem_cons_of_mem _ (hstage.started hne),
        fun hnil => hstarted call hx (hstage.unstarted hnil)⟩
    | bidding _ | dated _ | storing _ =>
      rw [hx] at hstage
      exact hstage
    | asleep _ | leading | resting _ _ | stopped => trivial

theorem Worker.Sound.later (h : x.Sound now history w) (hnow : now ≤ now')
    (hbid : ∀ b, x.stage = .bidding b → now' < b.now + seconds 90) : x.Sound now' history w where
  past m hm := Nat.le_trans (h.past m hm) (day_mono hnow)
  known := h.known
  recalled := h.recalled
  stage := by
    have hstage := h.stage
    cases hx : x.stage with
    | bidding b =>
      rw [hx] at hstage
      exact ⟨Nat.le_trans hstage.1 hnow, hbid b hx⟩
    | dated _ | storing _ =>
      rw [hx] at hstage
      exact Nat.le_trans hstage (day_mono hnow)
    | calling call =>
      rw [hx] at hstage
      exact ⟨hstage.today, Nat.le_trans hstage.past (day_mono hnow), hstage.older,
        hstage.started, hstage.unstarted⟩
    | down | starting _ | loading =>
      rw [hx] at hstage
      exact hstage
    | asleep _ | leading | resting _ _ | stopped => trivial

theorem Worker.Sound.not_knows {today : Nat} (h : x.Sound now history w)
    (hstage : x.stage = .dated today) (hmemory : x.lastFullSyncDate ≠ some (day now)) :
    ¬Knows history w (day now) := by
  intro hknows
  have hstopped : x.stage ≠ .stopped := by
    rw [hstage]
    nofun
  have hcalling : x.stage.isCalling = false := by rw [hstage]; rfl
  obtain ⟨m, hm, hle⟩ := (h.recalled _ hknows).remembered hstopped hcalling
  have hday : m = day now := Nat.le_antisymm (h.past m hm) hle
  exact hmemory (hday ▸ hm)

end OneWorker

variable [DecidableEq W] {s s' : State W}

theorem Kept.put {x : Worker} (h : Kept s) (hnow : s'.now = s.now)
    (hworker : ∀ v ≠ w, s'.worker v = s.worker v)
    (hstored : ∀ d ∈ s'.lastFullSyncDate, d ≤ day s.now)
    (hothers : ∀ v ≠ w, (s.worker v).Sound s.now s'.history v)
    (hclaim : ∀ v ≠ w, Leads s.now s.claim v → Leads s.now s'.claim v)
    (hleads : x.stage.isLeader = true → Leads s.now s'.claim w)
    (hx : x.Sound s.now s'.history w) : Kept (s'.put w x) where
  stored := by
    show ∀ d ∈ s'.lastFullSyncDate, d ≤ day s'.now
    rw [hnow]
    exact hstored
  leads v := by
    show (Function.update s'.worker w x v).stage.isLeader = true → Leads s'.now s'.claim v
    rw [hnow]
    by_cases hv : v = w
    · subst hv
      rw [Function.update_self]
      exact hleads
    · rw [Function.update_of_ne hv, hworker v hv]
      exact fun hleader => hclaim v hv (h.leads v hleader)
  worker v := by
    show (Function.update s'.worker w x v).Sound s'.now s'.history v
    rw [hnow]
    by_cases hv : v = w
    · subst hv
      rw [Function.update_self]
      exact hx
    · rw [Function.update_of_ne hv, hworker v hv]
      exact hothers v hv

theorem Kept.move {x : Worker} (h : Kept s)
    (hleads : x.stage.isLeader = true → (s.worker w).stage.isLeader = true)
    (hx : x.Sound s.now s.history w) : Kept (s.put w x) :=
  h.put rfl (fun _ _ => rfl) h.stored (fun v _ => h.worker v) (fun _ _ hleads => hleads)
    (fun hleader => h.leads w (hleads hleader)) hx

omit [DecidableEq W] in
theorem Kept.stage {stage : Stage} (h : Kept s) (hstage : (s.worker w).stage = stage) :
    stage.Sound s.now s.history w (s.worker w).lastFullSyncDate :=
  hstage ▸ (h.worker w).stage

theorem Kept.load (h : Kept s) (hstage : (s.worker w).stage = .loading) : Kept (load w s) := by
  have hunknown : ∀ d, ¬Knows s.history w d := h.stage hstage
  refine h.put rfl (fun _ _ => rfl) h.stored ?_ (fun _ _ hleads => hleads) nofun ?_
  · intro v hv
    exact (h.worker v).event (fun d => knows_loaded_of_ne hv) fun _ _ => not_started_loaded
  · refine ⟨h.stored, ?_, ?_, Nat.le_refl _, ?_⟩
    · intro m hm
      have hdate : s.lastFullSyncDate = some m := hm
      exact .inr (hdate ▸ List.mem_cons_self)
    · intro d hd
      rcases hd with hmem | hmem
      · cases hmem with
        | tail _ hmem => exact absurd (.inl hmem) (hunknown d)
      · rcases List.mem_cons.mp hmem with hevent | hmem
        · injection hevent with _ hdate
          exact .inr (.inl ⟨d, hdate.symm, Nat.le_refl _⟩)
        · exact absurd (.inr hmem) (hunknown d)
    · show s.now < s.now + seconds 90
      exact Nat.lt_add_of_pos_right (by decide)

theorem Kept.answerBid {b : Bid} (h : Kept s) (hstage : (s.worker w).stage = .bidding b) :
    Kept (answerBid w b s) := by
  have htimes : b.now ≤ s.now ∧ s.now < b.now + seconds 90 := h.stage hstage
  have hstopped : (s.worker w).stage ≠ .stopped := by
    rw [hstage]
    nofun
  refine h.put rfl (fun _ _ => rfl) h.stored (fun v _ => h.worker v) ?_ ?_
    ((h.worker w).move ?_ hstopped (by rw [hstage]; rfl))
  · intro v hv hleads
    show Leads s.now (LeaderElection.bid 90 w s.claim b).1 v
    rw [(hleads.bid_other (Ne.symm hv) htimes.1).1]
    exact hleads
  · intro hleader
    refine leads_of_bid ?_ htimes.2
    change (afterBid s.now (LeaderElection.bid 90 w s.claim b).2).isLeader = true at hleader
    cases hresult : (LeaderElection.bid 90 w s.claim b).2 with
    | leader => rfl
    | follower | undecided _ =>
      rw [hresult] at hleader
      cases hleader
  · show (afterBid s.now (LeaderElection.bid 90 w s.claim b).2).Sound s.now s.history w _
    cases hresult : (LeaderElection.bid 90 w s.claim b).2 with
    | leader | follower => trivial
    | undecided b' =>
      exact ⟨bid_undecided_now hresult ▸ htimes.1, bid_undecided_now hresult ▸ htimes.2⟩

theorem Kept.check {today : Nat} (h : Kept s) (hstage : (s.worker w).stage = .dated today)
    (hinformed : Informed cfg s (.check w)) : Kept (check cfg w today s) := by
  have hstopped : (s.worker w).stage ≠ .stopped := by
    rw [hstage]
    nofun
  have hcalling : (s.worker w).stage.isCalling = false := by rw [hstage]; rfl
  have hleader : (s.worker w).stage.isLeader = true := by rw [hstage]; rfl
  unfold WeeklySync.check
  dsimp only
  split
  · rename_i hcall
    obtain ⟨hsunday, hmemory, hidle⟩ := hcall
    have hdated : (s.worker w).stage.isDated = true := by rw [hstage]; rfl
    obtain ⟨htoday, hstarts⟩ := hinformed ⟨hdated, hsunday, hidle⟩
    rw [hstage] at htoday
    have hday : today = day s.now := Option.some.inj htoday
    have hunknown := (h.worker w).not_knows hstage (hday ▸ hmemory)
    refine h.move (fun _ => hleader) ((h.worker w).move ?_ hstopped hcalling)
    exact ⟨hday, Nat.le_refl _, (h.worker w).past, fun hne => absurd rfl hne,
      fun _ => mt hstarts.mp hunknown⟩
  · exact h.move (fun _ => hleader) ((h.worker w).move trivial hstopped hcalling)

theorem Kept.heartbeat {left due : Nat} (h : Kept s)
    (hstage : (s.worker w).stage = .resting left due) : Kept (heartbeat w left s) := by
  have hstopped : (s.worker w).stage ≠ .stopped := by
    rw [hstage]
    nofun
  have hleads : Leads s.now s.claim w := h.leads w (by rw [hstage]; rfl)
  refine h.put rfl (fun _ _ => rfl) h.stored (fun v _ => h.worker v)
    (fun v hv hother => hother.heartbeat_other (Ne.symm hv) s.now)
    (fun _ => hleads.heartbeat_self (by decide))
    ((h.worker w).move ?_ hstopped (by rw [hstage]; rfl))
  split
  · exact ⟨Nat.le_refl _, Nat.lt_add_of_pos_right (by decide)⟩
  · exact ⟨Nat.le_refl _, Nat.lt_add_of_pos_right (by decide)⟩
  · trivial

theorem Kept.store {today : Nat} (h : Kept s) (hstage : (s.worker w).stage = .storing today) :
    Kept (store w today s) := by
  have hpast : today ≤ day s.now := h.stage hstage
  have hstopped : (s.worker w).stage ≠ .stopped := by
    rw [hstage]
    nofun
  refine h.put rfl (fun _ _ => rfl) ?_ (fun v _ => h.worker v) (fun _ _ hleads => hleads)
    (fun _ => h.leads w (by rw [hstage]; rfl))
    ((h.worker w).move trivial hstopped (by rw [hstage]; rfl))
  intro d hd
  cases hd
  exact hpast

section Calling

variable {call : Call} {p : Phase} {position : Position}

theorem Kept.proceed (h : Kept s) (hstage : (s.worker w).stage = .calling call) :
    Kept (s.setStage w (.calling { call with position := position })) :=
  h.move (fun _ => by rw [hstage]; rfl) ((h.worker w).proceed hstage)

theorem Kept.answerCall (h : Kept s) (hstage : (s.worker w).stage = .calling call) :
    Kept (answerCall w call s) := by
  have hcall : call.Sound s.now s.history w _ := h.stage hstage
  have hpast : call.today ≤ day s.now := hcall.today ▸ hcall.past
  have hold := h.worker w
  refine h.move (fun _ => by rw [hstage]; rfl) ?_
  by_cases hnil : call.phasesStarted = []
  · rw [if_pos hnil]
    refine ⟨hold.past, hold.known, ?_, hpast⟩
    intro d hd
    rcases hold.recalled d hd with hstopped | hremembered | ⟨call', hstage', hstarted, -⟩
    · rw [hstage] at hstopped
      cases hstopped
    · exact .inr (.inl hremembered)
    · cases hstage.symm.trans hstage'
      exact absurd hnil hstarted
  · rw [if_neg hnil]
    refine ⟨?_, ?_, ?_, hpast⟩
    · intro m hm
      cases hm
      exact hpast
    · intro m hm
      cases hm
      exact .inl (hcall.today ▸ hcall.started hnil)
    · intro d hd
      rcases hold.recalled d hd with hstopped | ⟨m, hm, hle⟩ | ⟨call', hstage', -, hd'⟩
      · rw [hstage] at hstopped
        cases hstopped
      · exact .inr (.inl ⟨_, rfl, hcall.today ▸ Nat.le_trans hle (hcall.older m hm)⟩)
      · cases hstage.symm.trans hstage'
        exact .inr (.inl ⟨_, rfl, Nat.le_of_eq (hd'.trans hcall.today.symm)⟩)

omit [DecidableEq W] in
theorem Kept.caller_unique {call' : Call} (h : Kept s) (hstage : (s.worker w).stage = .calling call)
    (hother : (s.worker v).stage = .calling call') : v = w :=
  (h.leads v (by rw [hother]; rfl)).unique (h.leads w (by rw [hstage]; rfl))

/-- A phase that is started, also for another reason, changes no memory. -/
theorem Kept.begin (h : Kept s) : Kept (begin cfg w p s) :=
  h.put rfl (fun _ _ => rfl) h.stored (fun v _ => h.worker v) (fun _ _ hleads => hleads)
    (h.leads w) ⟨(h.worker w).past, (h.worker w).known, (h.worker w).recalled,
      (h.worker w).stage⟩

theorem Kept.triggerPhase (h : Kept s) (hstage : (s.worker w).stage = .calling call) :
    Kept (triggerPhase cfg w call p position s) := by
  have hleads : Leads s.now s.claim w := h.leads w (by rw [hstage]; rfl)
  unfold WeeklySync.triggerPhase
  split
  · have hworker : ∀ v ≠ w, (WeeklySync.begin cfg w p s).worker v = s.worker v := by
      intro v hv
      exact Function.update_of_ne hv _ _
    have hself : (WeeklySync.begin cfg w p s).worker w =
        { s.worker w with running := Function.update (s.worker w).running p true } :=
      Function.update_self ..
    unfold State.setStage
    dsimp only
    rw [hself]
    by_cases hnil : call.phasesStarted = []
    · rw [if_pos hnil]
      refine h.put rfl hworker h.stored ?_ (fun _ _ hleads => hleads) (fun _ => hleads)
        ((h.worker w).first hstage hnil)
      intro v hv
      refine (h.worker v).event (fun d => knows_started_of_ne hv) ?_
      intro call' hother
      exact absurd (h.caller_unique hstage hother) hv
    · rw [if_neg hnil]
      exact h.put rfl hworker h.stored (fun v _ => h.worker v) (fun _ _ hleads => hleads)
        (fun _ => hleads) ((h.worker w).another hstage hnil)
  · exact h.proceed hstage

theorem Kept.continueCall {clientCreated : Bool} (h : Kept s)
    (hstage : (s.worker w).stage = .calling call) :
    Kept (continueCall cfg w clientCreated call s) := by
  unfold WeeklySync.continueCall
  split
  · split
    · exact h.proceed hstage
    · exact h.move nofun (h.worker w).halt
  · exact h.triggerPhase hstage
  · split
    · exact h.proceed hstage
    · exact h.answerCall hstage
  · split
    · exact h.proceed hstage
    · exact h.answerCall hstage
  · exact h.triggerPhase hstage
  · exact h.answerCall hstage

end Calling

omit [DecidableEq W] in
theorem Kept.tick [DecidableEq W] {d : Nat} (h : Kept s)
    (hontime : ∀ w, (s.worker w).stage.onTime (s.now + d) s.claim w = true) :
    Kept { s with now := s.now + d } where
  stored m hm := Nat.le_trans (h.stored m hm) (day_mono (Nat.le_add_right _ _))
  leads w hleader := by
    obtain ⟨doc, hclaim, hworker, -⟩ := h.leads w hleader
    have htime := hontime w
    rw [hclaim] at htime
    refine ⟨doc, hclaim, hworker, ?_⟩
    change (s.worker w).stage.isLeader = true at hleader
    show s.now + d < doc.expiresAt
    cases hstage : (s.worker w).stage with
    | leading | dated _ | calling _ | storing _ | resting _ _ =>
      rw [hstage] at htime
      simpa [Stage.onTime, hworker] using htime
    | down | starting _ | loading | asleep _ | bidding _ | stopped =>
      rw [hstage] at hleader
      cases hleader
  worker w := (h.worker w).later (Nat.le_add_right _ _) fun b hstage => by
    have htime := hontime w
    rw [hstage] at htime
    exact of_decide_eq_true htime

omit [DecidableEq W] in
theorem Kept.expire (h : Kept s) :
    Kept { s with claim := LeaderElection.expire s.now s.claim } where
  stored := h.stored
  leads w hleader := (h.leads w hleader).expire
  worker := h.worker

/-- The worker is asleep, at its start or as a follower. -/
theorem Kept.wake (h : Kept s) : Kept (next cfg s (.wake w)) := by
  dsimp only [next]
  split
  · rename_i due hstage
    have hunknown : ∀ d, ¬Knows s.history w d := h.stage hstage
    exact h.move nofun ((h.worker w).move hunknown (by rw [hstage]; nofun) (by rw [hstage]; rfl))
  · rename_i due hstage
    exact h.move nofun ((h.worker w).move
      ⟨Nat.le_refl _, Nat.lt_add_of_pos_right (by decide)⟩ (by rw [hstage]; nofun)
      (by rw [hstage]; rfl))
  · exact h

theorem Kept.next {act : Act W} (h : Kept s) (henabled : Enabled cfg s act)
    (hinformed : Informed cfg s act) : Kept (next cfg s act) := by
  cases act with
  | start w =>
    have hstage : (s.worker w).stage = .down := henabled
    have hunknown : ∀ d, ¬Knows s.history w d := h.stage hstage
    exact h.move nofun ((h.worker w).move hunknown (by rw [hstage]; nofun) (by rw [hstage]; rfl))
  | wake w => exact h.wake
  | load w => exact h.load henabled
  | bid w =>
    dsimp only [WeeklySync.next]
    split
    · rename_i hstage
      exact h.answerBid hstage
    · exact h
  | readDate w =>
    have hstage : (s.worker w).stage = .leading := henabled
    exact h.move (fun _ => by rw [hstage]; rfl)
      ((h.worker w).move (Nat.le_refl _) (by rw [hstage]; nofun) (by rw [hstage]; rfl))
  | check w =>
    dsimp only [WeeklySync.next]
    split
    · rename_i hstage
      exact h.check hstage hinformed
    · exact h
  | continueCall w clientCreated =>
    dsimp only [WeeklySync.next]
    split
    · rename_i hstage
      exact h.continueCall hstage
    · exact h
  | store w =>
    dsimp only [WeeklySync.next]
    split
    · rename_i hstage
      exact h.store hstage
    · exact h
  | heartbeat w =>
    dsimp only [WeeklySync.next]
    split
    · rename_i hstage
      exact h.heartbeat hstage
    · exact h
  | stop w =>
    exact h.put rfl (fun _ _ => rfl) h.stored (fun v _ => h.worker v)
      (fun v hv hleads => hleads.resign_other (Ne.symm hv)) nofun (h.worker w).halt
  | crash w => exact h.move nofun (h.worker w).halt
  | begin w p => exact h.begin
  | finish w p =>
    exact h.move id ⟨(h.worker w).past, (h.worker w).known, (h.worker w).recalled,
      (h.worker w).stage⟩
  | release w p => exact ⟨h.stored, h.leads, h.worker⟩
  | expire => exact h.expire
  | tick d => exact h.tick henabled

omit [DecidableEq W] in
theorem Kept.once {act : Act W} (h : Kept s) : Once cfg s act := by
  cases act with
  | continueCall w clientCreated =>
    intro d hd
    cases hstage : (s.worker w).stage with
    | calling call =>
      have hcall : call.Sound s.now s.history w _ := h.stage hstage
      rw [hstage] at hd
      dsimp only [Stage.firstStart?] at hd
      split at hd
      · rename_i hfirst
        cases hd
        exact hcall.unstarted hfirst.1
      · cases hd
    | _ =>
      rw [hstage] at hd
      cases hd
  | _ => trivial

theorem Kept.retried {act : Act W} (h : Kept s) (hinformed : Informed cfg s act) :
    Retried cfg s act := by
  cases act with
  | check w =>
    intro hdue hnone
    obtain ⟨htoday, hstarts⟩ := hinformed hdue
    obtain ⟨hdated, hsunday, hidle⟩ := hdue
    cases hstage : (s.worker w).stage with
    | dated today =>
      rw [hstage] at htoday
      have hday : today = day s.now := Option.some.inj htoday
      have hmemory : (s.worker w).lastFullSyncDate ≠ some today := by
        intro hremembered
        have hknows := (h.worker w).known today hremembered
        exact hnone (hstarts.mpr (hday ▸ hknows))
      dsimp only [WeeklySync.next]
      rw [hstage]
      dsimp only [WeeklySync.check]
      rw [if_pos ⟨hsunday, hmemory, hidle⟩]
      show (Function.update s.worker w _ w).stage.isCalling = true
      rw [Function.update_self]
      rfl
    | _ =>
      rw [hstage] at hdated
      cases hdated
  | _ => trivial

omit [DecidableEq W] in
theorem kept_fresh : Kept (fresh now : State W) where
  stored := nofun
  leads _ hleader := by cases hleader
  worker _ := ⟨nofun, nofun, fun _ hknows => absurd hknows not_knows_nil, fun _ => not_knows_nil⟩

/-- There is one full sync a Sunday, and a check tries again until there is, where a worker that
checks knows of a start on this day exactly if there was one. -/
theorem runs_lawful {acts : List (Act W)}
    (hrun : (schedulers cfg).Runs (Informed cfg) (fresh now) acts) :
    (schedulers cfg).Runs (Lawful cfg) (fresh now) acts :=
  Machine.Keeps.run (I := Kept) (fun _ _ henabled hinformed h => h.next henabled hinformed)
    (fun _ _ _ hinformed h => ⟨h.once, h.retried hinformed⟩) hrun kept_fresh

section Decidable

instance : Decidable (Started history now) := inferInstanceAs (Decidable (∃ _ ∈ _, _ = _))

instance : Decidable (Knows history w now) := inferInstanceAs (Decidable (_ ∨ _))

variable {act : Act W}

instance : Decidable (Due cfg s w) := inferInstanceAs (Decidable (_ = true ∧ _ = 6 ∧ _ = false))

instance : Decidable (Once cfg s act) :=
  match act with
  | .continueCall _ _ => inferInstanceAs (Decidable (∀ _ ∈ _, ¬Started _ _))
  | .start _ | .wake _ | .load _ | .bid _ | .readDate _ | .check _ | .store _ | .heartbeat _
  | .stop _ | .crash _ | .begin _ _ | .finish _ _ | .release _ _ | .expire | .tick _ =>
    inferInstanceAs (Decidable True)

instance : Decidable (Retried cfg s act) :=
  match act with
  | .check _ => inferInstanceAs (Decidable (Due _ _ _ → ¬Started _ _ → _ = true))
  | .start _ | .wake _ | .load _ | .bid _ | .readDate _ | .continueCall _ _ | .store _
  | .heartbeat _ | .stop _ | .crash _ | .begin _ _ | .finish _ _ | .release _ _ | .expire
  | .tick _ => inferInstanceAs (Decidable True)

instance : Decidable (Lawful cfg s act) := inferInstanceAs (Decidable (_ ∧ _))

instance : Decidable (Informed cfg s act) :=
  match act with
  | .check _ => inferInstanceAs (Decidable (Due _ _ _ → _ = _ ∧ (Started _ _ ↔ Knows _ _ _)))
  | .start _ | .wake _ | .load _ | .bid _ | .readDate _ | .continueCall _ _ | .store _
  | .heartbeat _ | .stop _ | .crash _ | .begin _ _ | .finish _ _ | .release _ _ | .expire
  | .tick _ => inferInstanceAs (Decidable True)

end Decidable

def sunday : State Bool := fresh (seconds (3 * 86400))

/-- A worker becomes the leader and checks; the five phases of SentinelOne are free or not. -/
def leadAndCheck (w : Bool) : List (Act Bool) :=
  [.wake w, .load w, .bid w, .readDate w, .check w] ++
    List.replicate 7 (.continueCall w true) ++ [.store w]

def succession : List (Act Bool) :=
  [.start false, .start true, .tick 60000, .wake false, .load false] ++ leadAndCheck true ++
    [.bid false, .bid false, .bid false, .finish true .sites,
      .release true .sites, .stop true, .tick 60000, .wake false, .bid false, .readDate false,
      .check false, .continueCall false true, .continueCall false true]

/-- The phases are running in the other worker, which starts later than the first one. -/
def refusal : List (Act Bool) :=
  (registered false).map (Act.begin false) ++ [.start true, .tick 60000] ++ leadAndCheck true ++
    (registered false).map (Act.finish false) ++
    [.stop true, .start false, .tick 60000, .wake false, .load false, .bid false, .readDate false,
      .check false]

def anHour : List (Act Bool) :=
  [.start true, .tick 60000] ++ leadAndCheck true ++
    (registered false).map (Act.finish true) ++
    (List.replicate 120 [.tick 30000, .heartbeat true]).flatten ++
    [.bid true, .bid true, .readDate true, .check true]

theorem an_hour_lawful :
    (schedulers ⟨false, true⟩).Runs (Informed ⟨false, true⟩) sunday anHour ∧
    (schedulers ⟨false, true⟩).Runs (Lawful ⟨false, true⟩) sunday anHour :=
  have hrun : (schedulers ⟨false, true⟩).Runs (Informed ⟨false, true⟩) sunday anHour := by
    decide +kernel
  ⟨hrun, runs_lawful hrun⟩

/-- A new leader starts a second full sync; a date that is stored without a start keeps a
restarted worker from trying again. -/
theorem twice_or_never :
    (¬∀ acts : List (Act Bool), (schedulers ⟨false, true⟩).Runs (fun _ _ => True) sunday acts →
      (schedulers ⟨false, true⟩).Runs (Once ⟨false, true⟩) sunday acts) ∧
    ¬∀ acts : List (Act Bool), (schedulers ⟨false, true⟩).Runs (fun _ _ => True) sunday acts →
      (schedulers ⟨false, true⟩).Runs (Retried ⟨false, true⟩) sunday acts := by
  constructor
  · intro hclaim
    have hrun := hclaim succession (by decide +kernel)
    revert hrun
    decide +kernel
  · intro hclaim
    have hrun := hclaim refusal (by decide +kernel)
    revert hrun
    decide +kernel

end Sentora.WeeklySync
