import Sentora.Lib.Machine
import Sentora.Webhooks.Delivery

/-!
# The automatic disabling of a webhook

When a delivery disables a webhook, in every interleaving of deliveries and requests of admins.

A delivery reads the failure count behind its own failure, and disables the webhook in a later
step.  What is recorded in between it does not see.
-/

namespace Sentora.Webhooks

open Lib Process

/-- The failures that have been recorded behind the last success and the last re-enabling. -/
def Store.consecutive (s : Store) : Nat := (s.history.takeWhile (· == .failure)).length

/-- A success is recorded, or an admin enables the webhook. -/
def WebhookOp.isReset : WebhookOp → Bool
  | .recordSuccess _ => true
  | .update updates => updates.enabled == some true
  | _ => false

/-- The failure count is zero behind the step. -/
def WebhookOp.Clears (w : Webhook) : WebhookOp → Prop
  | .update updates => updates.resetsFailureCount = true ∨ w.failureCount = 0
  | _ => True

/-- A delivery that disables the webhook does so when enough failures have been recorded. -/
def Justified (c : WebhookPool) : WebhookAct → Prop
  | .start _ _ => True
  | .turn i => ∀ error, (c.procs i).next? = some (.disable error) → c.state.webhook ≠ none →
    maxFailures ≤ c.state.consecutive

/-- No delivery is about to disable the webhook when a success is recorded or the webhook is
enabled, which resets the failure count unless it is zero. -/
def InOrder (c : WebhookPool) : WebhookAct → Prop
  | .start _ _ => True
  | .turn i => ∀ op w, (c.procs i).next? = some op → op.isReset = true →
    c.state.webhook = some w →
      op.Clears w ∧ ∀ j error, (c.procs j).next? ≠ some (.disable error)

/-- A call starts in a place that is free. -/
def Free (c : WebhookPool) : WebhookAct → Prop
  | .start i _ => (c.procs i).next? = none
  | .turn _ => True

/-- Neither is a success recorded nor the webhook enabled. -/
def Quiet (c : WebhookPool) : WebhookAct → Prop
  | .start i _ => (c.procs i).next? = none
  | .turn i => ∀ op, (c.procs i).next? = some op → op.isReset = false

/-- As long as no success is recorded and no admin enables the webhook, every disabling is
justified. -/
def Robust (webhookId : String) (c : WebhookPool) : Prop :=
  ∀ acts, AllMeet (Pool.perform (program webhookId)) Quiet c acts →
    AllMeet (Pool.perform (program webhookId)) Justified c acts

/-- No call is under way. -/
def Finished (c : WebhookPool) : Prop := ∀ i, (c.procs i).next? = none

section Steps

variable {s : Store} {w : Webhook} {op : WebhookOp}
variable {w' : Webhook}

theorem consecutive_updateOne {recorded : List Recorded} {f : Webhook → Webhook}
    (h : s.webhook = some w) :
    (s.updateOne recorded f).consecutive =
      ((recorded ++ s.history).takeWhile (· == .failure)).length := by
  unfold Store.updateOne
  rw [h]
  rfl

theorem webhook_updateOne {recorded : List Recorded} {f : Webhook → Webhook} :
    (s.updateOne recorded f).webhook = s.webhook.map f := by
  unfold Store.updateOne
  cases h : s.webhook with
  | none => exact h
  | some w => rfl

theorem consecutive_reset (h : s.webhook = some w) (hreset : op.isReset = true) :
    (op.apply s).consecutive = 0 := by
  match op with
  | .recordSuccess now => exact consecutive_updateOne h
  | .update updates =>
    refine (consecutive_updateOne h).trans ?_
    rw [if_pos (beq_iff_eq.mp hreset)]
    rfl

theorem consecutive_recordFailure {error : String} (h : s.webhook = some w) :
    (WebhookOp.apply (.recordFailure error) s).consecutive = s.consecutive + 1 :=
  consecutive_updateOne h

theorem consecutive_apply (h : op.isReset = false) (hfailure : ∀ error, op ≠ .recordFailure error) :
    (op.apply s).consecutive = s.consecutive := by
  cases op with
  | recordFailure error => exact absurd rfl (hfailure error)
  | recordSuccess now => cases h
  | disable error =>
    show (s.updateOne _ _).consecutive = _
    unfold Store.updateOne
    split
    · rfl
    · rfl
  | update updates =>
    show (s.updateOne _ _).consecutive = _
    rw [if_neg (ne_of_beq_false h)]
    unfold Store.updateOne
    split
    · rfl
    · rfl
  | getFailureCount => rfl
  | getById => rfl
  | delete => rfl
  | getUpdated => rfl

theorem exists_of_reset (hreset : op.isReset = true) (hw : s.webhook = some w) :
    ∃ w', (op.apply s).webhook = some w' := by
  match op with
  | .recordSuccess now => exact ⟨_, webhook_updateOne.trans (congrArg _ hw)⟩
  | .update updates => exact ⟨_, webhook_updateOne.trans (congrArg _ hw)⟩

/-- A document that is there behind a step was there before. -/
theorem exists_of_apply (h : (op.apply s).webhook = some w') :
    ∃ w, s.webhook = some w := by
  have hupdateOne : ∀ recorded f, (s.updateOne recorded f).webhook = some w' →
      ∃ w, s.webhook = some w := by
    intro recorded f hw
    rw [webhook_updateOne] at hw
    obtain ⟨w, hw, -⟩ := Option.map_eq_some_iff.mp hw
    exact ⟨w, hw⟩
  cases op with
  | recordFailure error => exact hupdateOne _ _ h
  | disable error => exact hupdateOne _ _ h
  | recordSuccess now => exact hupdateOne _ _ h
  | update updates => exact hupdateOne _ _ h
  | delete => cases h
  | getFailureCount => exact ⟨w', h⟩
  | getById => exact ⟨w', h⟩
  | getUpdated => exact ⟨w', h⟩

theorem failureCount_apply (h : op.isReset = false)
    (hfailure : ∀ error, op ≠ .recordFailure error) (hw : s.webhook = some w)
    (hw' : (op.apply s).webhook = some w') : w'.failureCount = w.failureCount := by
  have hupdateOne : ∀ recorded f, (s.updateOne recorded f).webhook = some w' → w' = f w := by
    intro recorded f h'
    rw [webhook_updateOne, hw] at h'
    exact (Option.some.inj h').symm
  cases op with
  | recordFailure error => exact absurd rfl (hfailure error)
  | recordSuccess now => cases h
  | delete => cases hw'
  | disable error => rw [hupdateOne _ _ hw']
  | update updates =>
    -- The count is reset only in a request that enables the webhook.
    have hkept : updates.resetsFailureCount = false :=
      Bool.eq_false_iff.mpr fun hresets => ne_of_beq_false h (updates.resets hresets)
    rw [hupdateOne _ _ hw']
    show (if updates.resetsFailureCount = true then 0 else w.failureCount) = w.failureCount
    rw [hkept, if_neg Bool.false_ne_true]
  | getFailureCount => rw [Option.some.inj (hw.symm.trans hw')]
  | getById => rw [Option.some.inj (hw.symm.trans hw')]
  | getUpdated => rw [Option.some.inj (hw.symm.trans hw')]

theorem failureCount_recordFailure {error : String} (hw : s.webhook = some w)
    (hw' : (WebhookOp.apply (.recordFailure error) s).webhook = some w') :
    w'.failureCount = w.failureCount + 1 := by
  have h : (s.updateOne _ _).webhook = some w' := hw'
  rw [webhook_updateOne, hw] at h
  rw [← Option.some.inj h]

theorem failureCount_of_clears (h : op.isReset = true) (hclears : op.Clears w)
    (hw : s.webhook = some w) (hw' : (op.apply s).webhook = some w') : w'.failureCount = 0 := by
  match op with
  | .recordSuccess now =>
    have h' : (s.updateOne _ _).webhook = some w' := hw'
    rw [webhook_updateOne, hw] at h'
    rw [← Option.some.inj h']
  | .update updates =>
    have h' : (s.updateOne _ _).webhook = some w' := hw'
    rw [webhook_updateOne, hw] at h'
    rw [← Option.some.inj h']
    show (if updates.resetsFailureCount = true then 0 else w.failureCount) = 0
    rcases hclears with hresets | hzero
    · exact if_pos hresets
    · rw [hzero, ite_self]

theorem apply_cases (hw : s.webhook = some w)
    (hw' : (op.apply s).webhook = some w') :
    (op.isReset = true ∧ (op.apply s).consecutive = 0 ∧
      (op.Clears w → w'.failureCount = 0)) ∨
    ((∃ error, op = .recordFailure error) ∧ (op.apply s).consecutive = s.consecutive + 1 ∧
      w'.failureCount = w.failureCount + 1) ∨
    (op.isReset = false ∧ (op.apply s).consecutive = s.consecutive ∧
      w'.failureCount = w.failureCount) := by
  cases hreset : op.isReset with
  | true =>
    refine Or.inl ⟨rfl, consecutive_reset hw hreset, fun hclears => ?_⟩
    exact failureCount_of_clears hreset hclears hw hw'
  | false =>
    by_cases hfailure : ∃ error, op = .recordFailure error
    · obtain ⟨error, rfl⟩ := hfailure
      refine Or.inr (Or.inl ⟨⟨error, rfl⟩, consecutive_recordFailure hw, ?_⟩)
      exact failureCount_recordFailure hw hw'
    · rw [not_exists] at hfailure
      refine Or.inr (Or.inr ⟨rfl, consecutive_apply hreset hfailure, ?_⟩)
      exact failureCount_apply hreset hfailure hw hw'

theorem eq_getFailureCount_of_leads {error : Option String}
    (h : op.leads s (some (.disable error))) :
    op = .getFailureCount ∧ ∀ w, s.webhook = some w → maxFailures ≤ w.failureCount := by
  cases op with
  | getFailureCount =>
    refine ⟨rfl, fun w hw => not_lt.mp fun hlt => ?_⟩
    cases (h.2 w hw).mpr hlt
  | getById => simp [WebhookOp.leads] at h
  | recordFailure error => cases h
  | update updates => cases h
  | disable error => cases h
  | recordSuccess now => cases h
  | delete => cases h
  | getUpdated => cases h

end Steps

section Ordered

variable {webhookId : String} {c : WebhookPool}

/-- The failure count is right, and who is about to disable the webhook may do so. -/
structure Ordered (c : WebhookPool) : Prop where
  takes : ∀ i, (c.procs i).Always (Takes course)
  counts : ∀ w, c.state.webhook = some w → w.failureCount = c.state.consecutive
  pending : ∀ i error, (c.procs i).next? = some (.disable error) → c.state.webhook ≠ none →
    maxFailures ≤ c.state.consecutive

theorem ordered_start (h : Ordered c) (i : Nat) (request : WebhookCall) :
    Ordered (c.start i (program webhookId request)) := by
  have htakes := @always_program webhookId request
  refine ⟨Pool.start_always h.takes i htakes, h.counts, fun j error hj => ?_⟩
  by_cases hji : j = i
  · -- No call begins with the disabling.
    rw [hji, Pool.start_procs_self] at hj
    exact absurd hj next?_program_ne_disable
  · rw [Pool.start_procs_of_ne _ hji] at hj
    exact h.pending j error hj

theorem ordered_turn (h : Ordered c) (i : Nat) (hinOrder : InOrder c (.turn i)) :
    Ordered (c.turn i) := by
  obtain hsame | ⟨op, hl, hstate, hlead⟩ := Pool.turn_cases (h.takes i).here
  · rw [hsame]
    exact h
  · replace hstate : (c.turn i).state = op.apply c.state := hstate
    refine ⟨Pool.turn_always h.takes i, fun w' hw' => ?_, fun j error hj hdoc => ?_⟩
    · rw [hstate] at hw' ⊢
      obtain ⟨w, hw⟩ := exists_of_apply hw'
      have hcount := h.counts w hw
      obtain ⟨hreset, hzero, hclears⟩ | ⟨-, hmore, hcount'⟩ | ⟨-, hkept, hcount'⟩ :=
        apply_cases hw hw'
      · rw [hzero, hclears (hinOrder op w hl hreset hw).1]
      · rw [hmore, hcount', hcount]
      · rw [hkept, hcount', hcount]
    · rw [hstate] at hdoc ⊢
      obtain ⟨w', hw'⟩ := Option.ne_none_iff_exists'.mp hdoc
      obtain ⟨w, hw⟩ := exists_of_apply hw'
      by_cases hji : j = i
      · rw [hji] at hj
        rw [hj] at hlead
        obtain ⟨rfl, hreached⟩ := eq_getFailureCount_of_leads hlead
        exact (hreached w hw).trans_eq (h.counts w hw)
      · rw [Pool.turn_procs_of_ne hji] at hj
        have hbefore := h.pending j error hj (Option.ne_none_iff_exists'.mpr ⟨w, hw⟩)
        obtain ⟨hreset, -, -⟩ | ⟨-, hmore, -⟩ | ⟨-, hkept, -⟩ := apply_cases hw hw'
        · exact absurd hj ((hinOrder op w hl hreset hw).2 j error)
        · omega
        · omega

theorem ordered_perform (h : Ordered c) (act : WebhookAct) (hact : InOrder c act) :
    Ordered (c.perform (program webhookId) act) := by
  cases act with
  | turn i => exact ordered_turn h i hact
  | start i request => exact ordered_start h i request

theorem ordered_created {name url : String} {events : List String} :
    Ordered (created name url events) := by
  refine ⟨fun _ => trivial, fun w hw => ?_, fun _ _ h => nomatch h⟩
  rw [← Option.some.inj hw]
  rfl

theorem justified_of_ordered (h : Ordered c) (act : WebhookAct) : Justified c act := by
  cases act with
  | start i request => trivial
  | turn i => exact fun error hl hdoc => h.pending i _ hl hdoc

theorem inOrder_of_quiet {act : WebhookAct} (h : Quiet c act) : InOrder c act := by
  cases act with
  | start i request => trivial
  | turn i =>
    intro op w hl hreset
    exact absurd ((h op hl).symm.trans hreset) Bool.false_ne_true

theorem robust_of_ordered (h : Ordered c) : Robust webhookId c := by
  intro acts hquiet
  refine hquiet.imp (I := Ordered) (fun c act hc hact => ?_) (fun c act hc _ => ?_) h
  · exact ordered_perform hc act (inOrder_of_quiet hact)
  · exact justified_of_ordered hc act

end Ordered

section Exact

variable {webhookId : String} {c : WebhookPool} {i : Nat} {w : Webhook}

theorem robust_perform (h : Robust webhookId c) (act : WebhookAct) (hact : Quiet c act) :
    Robust webhookId (c.perform (program webhookId) act) :=
  fun acts hacts => (h (act :: acts) ⟨hact, hacts⟩).2

theorem le_consecutive_of_robust (h : Robust webhookId c) {error : Option String}
    (hl : (c.procs i).next? = some (.disable error)) (hw : c.state.webhook = some w) :
    maxFailures ≤ c.state.consecutive := by
  have hquiet : Quiet c (.turn i) := by
    intro op hop
    cases hl.symm.trans hop
    rfl
  have hjustified : Justified c (.turn i) := (h [.turn i] ⟨hquiet, trivial⟩).1
  exact hjustified error hl (Option.ne_none_iff_exists'.mpr ⟨w, hw⟩)

theorem le_consecutive_of_reached (h : Robust webhookId c)
    (hnext : WebhookOp.leads .getFailureCount c.state (c.procs i).next?)
    (hw : c.state.webhook = some w) (hreached : maxFailures ≤ w.failureCount) :
    maxFailures ≤ c.state.consecutive := by
  obtain hnone | ⟨error, hdisable⟩ := hnext.1
  · exact absurd ((hnext.2 w hw).mp hnone) (not_lt.mpr hreached)
  · exact le_consecutive_of_robust h hdisable hw

theorem counts_of_recordFailure {s t : Store} {error : String}
    (ht : t = WebhookOp.apply (.recordFailure error) s) (hw : s.webhook = some w) :
    ∃ w', t.webhook = some w' ∧ w'.failureCount = w.failureCount + 1 ∧
      t.consecutive = s.consecutive + 1 := by
  subst ht
  exact ⟨_, webhook_updateOne.trans (congrArg _ hw), rfl, consecutive_recordFailure hw⟩

/-- A delivery fails from a free place, up to the disabling or to its end. -/
theorem after_failure (htakes : ∀ i, (c.procs i).Always (Takes course))
    (hfree : (c.procs i).next? = none) (hrobust : Robust webhookId c) :
    ∃ c' : WebhookPool, Robust webhookId c' ∧ (∀ i, (c'.procs i).Always (Takes course)) ∧
      c'.state = WebhookOp.apply (.recordFailure "Blocked: ") c.state ∧
      WebhookOp.leads .getFailureCount c'.state (c'.procs i).next? := by
  let request : WebhookCall := .deliver ⟨"", "", [], true, none, 0, none⟩ (.blocked "") ""
  let c₁ := c.start i (program webhookId request)
  have htakes₁ : ∀ j, (c₁.procs j).Always (Takes course) :=
    Pool.start_always htakes i (always_program request)
  have hl₁ : (c₁.procs i).next? = some (.recordFailure "Blocked: ") := by
    show ((c.start i _).procs i).next? = _
    rw [Pool.start_procs_self]
    rfl
  have hquiet₁ : Quiet c₁ (.turn i) := by
    intro op hop
    cases hl₁.symm.trans hop
    rfl
  have hl₂ : ((c₁.turn i).procs i).next? = some .getFailureCount :=
    Pool.leads_turn_of_takes (htakes₁ i).here hl₁
  have htakes₂ := Pool.turn_always htakes₁ i
  have hquiet₂ : Quiet (c₁.turn i) (.turn i) := by
    intro op hop
    cases hl₂.symm.trans hop
    rfl
  have hstate₂ := Pool.state_turn_of_takes (htakes₁ i).here hl₁
  have hstate₃ : ((c₁.turn i).turn i).state = (c₁.turn i).state :=
    Pool.state_turn_of_takes (htakes₂ i).here hl₂
  have hrobust₁ : Robust webhookId c₁ := robust_perform hrobust (.start i request) hfree
  refine ⟨(c₁.turn i).turn i, ?_, Pool.turn_always htakes₂ i, hstate₃.trans hstate₂, ?_⟩
  · exact robust_perform (robust_perform hrobust₁ (.turn i) hquiet₁) (.turn i) hquiet₂
  · rw [hstate₃]
    exact Pool.leads_turn_of_takes (htakes₂ i).here hl₂

theorem not_robust_of_lead {n : Nat} (hn : maxFailures ≤ w.failureCount + n)
    (htakes : ∀ i, (c.procs i).Always (Takes course)) (hfree : (c.procs i).next? = none)
    (hw : c.state.webhook = some w) (hlead : c.state.consecutive < w.failureCount)
    (hfew : c.state.consecutive + 1 < maxFailures) : ¬Robust webhookId c := by
  induction n generalizing c w with
  | zero =>
    intro hrobust
    obtain ⟨c', hrobust', -, hstate, hnext⟩ := after_failure htakes hfree hrobust
    obtain ⟨w', hw', hcount, hconsecutive⟩ := counts_of_recordFailure hstate hw
    have hle := le_consecutive_of_reached hrobust' hnext hw' (by omega)
    omega
  | succ n ih =>
    intro hrobust
    obtain ⟨c', hrobust', htakes', hstate, hnext⟩ := after_failure htakes hfree hrobust
    obtain ⟨w', hw', hcount, hconsecutive⟩ := counts_of_recordFailure hstate hw
    by_cases hreached : maxFailures ≤ w'.failureCount
    · have hle := le_consecutive_of_reached hrobust' hnext hw' hreached
      omega
    · have hnone : (c'.procs i).next? = none := (hnext.2 w' hw').mpr (not_le.mp hreached)
      exact ih (by omega) htakes' hnone hw' (by omega) (by omega) hrobust'

theorem failureCount_of_kept {s : Store} {updates : Updates} {w' : Webhook}
    (hkept : ¬updates.resetsFailureCount = true) (hw : s.webhook = some w)
    (hw' : (WebhookOp.apply (.update updates) s).webhook = some w') :
    w'.failureCount = w.failureCount := by
  have hset : (s.updateOne _ updates.set).webhook = some w' := hw'
  rw [webhook_updateOne, hw] at hset
  rw [← Option.some.inj hset]
  exact if_neg hkept

theorem clears_of_robust {updates : Updates} (htakes : ∀ i, (c.procs i).Always (Takes course))
    (hl : (c.procs i).next? = some (.update updates))
    (hreset : (WebhookOp.update updates).isReset = true) (hw : c.state.webhook = some w)
    (hrobust : Robust webhookId (c.turn i)) : (WebhookOp.update updates).Clears w := by
  by_contra hnot
  obtain ⟨hkept, hcount⟩ := not_or.mp hnot
  have hstate : (c.turn i).state = WebhookOp.apply (.update updates) c.state :=
    Pool.state_turn_of_takes (htakes i).here hl
  have hlead : ((c.turn i).procs i).next? = some .getUpdated :=
    Pool.leads_turn_of_takes (htakes i).here hl
  have htakes' := Pool.turn_always htakes i
  -- The call reads the document that it answers, and its place is free.
  have hquiet : Quiet (c.turn i) (.turn i) := by
    intro op hop
    cases hlead.symm.trans hop
    rfl
  have hread : ((c.turn i).turn i).state = (c.turn i).state :=
    Pool.state_turn_of_takes (htakes' i).here hlead
  have hfree : (((c.turn i).turn i).procs i).next? = none :=
    Pool.leads_turn_of_takes (htakes' i).here hlead
  have hzero : ((c.turn i).turn i).state.consecutive = 0 := by
    rw [hread, hstate]
    exact consecutive_reset hw hreset
  obtain ⟨w', hw'⟩ := exists_of_reset hreset hw
  have hcount' := failureCount_of_kept hkept hw hw'
  rw [← hstate, ← hread] at hw'
  refine not_robust_of_lead (Nat.le_add_left ..) (Pool.turn_always htakes' i) hfree hw' ?_ ?_
    (robust_perform hrobust (.turn i) hquiet)
  · omega
  · rw [hzero]
    decide

theorem inOrder_of_robust (h : Ordered c) (act : WebhookAct)
    (hrobust : Robust webhookId (c.perform (program webhookId) act)) : InOrder c act := by
  cases act with
  | start i request => trivial
  | turn i =>
    intro op w hl hreset hw
    have hrobust : Robust webhookId (c.turn i) := hrobust
    refine ⟨?_, fun j error hj => ?_⟩
    · match op with
      | .recordSuccess now => trivial
      | .update updates => exact clears_of_robust h.takes hl hreset hw hrobust
    · have hstate : (c.turn i).state = op.apply c.state :=
        Pool.state_turn_of_takes (h.takes i).here hl
      have hzero := consecutive_reset hw hreset
      obtain ⟨w', hw'⟩ := exists_of_reset hreset hw
      have hji : j ≠ i := by
        rintro rfl
        cases hl.symm.trans hj
        cases hreset
      rw [← hstate] at hw' hzero
      rw [← Pool.turn_procs_of_ne hji] at hj
      have hle := le_consecutive_of_robust hrobust hj hw'
      rw [hzero] at hle
      exact absurd hle (by decide)

end Exact

section Watched

variable {webhookId : String} {c : WebhookPool}

def Disabling (next : Option WebhookOp) : Prop :=
  next = some .getFailureCount ∨ ∃ error, next = some (.disable error)

/-- The failure count is not too low, and if enough failures have been recorded then the webhook
is disabled or a delivery is on the way to it. -/
structure Watched (c : WebhookPool) : Prop where
  takes : ∀ i, (c.procs i).Always (Takes course)
  counts : ∀ w, c.state.webhook = some w → c.state.consecutive ≤ w.failureCount
  due : ∀ w, c.state.webhook = some w → maxFailures ≤ c.state.consecutive → w.enabled = true →
    ∃ i, Disabling (c.procs i).next?

theorem enabled_apply {s : Store} {op : WebhookOp} {w w' : Webhook} (h : op.isReset = false)
    (hw : s.webhook = some w) (hw' : (op.apply s).webhook = some w')
    (henabled : w'.enabled = true) : w.enabled = true ∧ ∀ error, op ≠ .disable error := by
  have hupdateOne : ∀ recorded f, (s.updateOne recorded f).webhook = some w' → w' = f w := by
    intro recorded f h'
    rw [webhook_updateOne, hw] at h'
    exact (Option.some.inj h').symm
  have hsame : (op.apply s).webhook = s.webhook → w.enabled = true := by
    intro heq
    rw [heq, hw] at hw'
    rw [Option.some.inj hw']
    exact henabled
  cases op with
  | recordSuccess now => cases h
  | delete => cases hw'
  | recordFailure error =>
    rw [hupdateOne _ _ hw'] at henabled
    exact ⟨henabled, nofun⟩
  | disable error =>
    rw [hupdateOne _ _ hw'] at henabled
    cases henabled
  | update updates =>
    rw [hupdateOne _ _ hw'] at henabled
    refine ⟨?_, nofun⟩
    have hset : updates.enabled.getD w.enabled = true := henabled
    have hreset : updates.enabled ≠ some true := ne_of_beq_false h
    match hvalue : updates.enabled with
    | none =>
      rw [hvalue] at hset
      exact hset
    | some true => exact absurd hvalue hreset
    | some false =>
      rw [hvalue] at hset
      cases hset
  | getFailureCount => exact ⟨hsame rfl, nofun⟩
  | getById => exact ⟨hsame rfl, nofun⟩
  | getUpdated => exact ⟨hsame rfl, nofun⟩

theorem watched_start (h : Watched c) {i : Nat} (hfree : (c.procs i).next? = none)
    (request : WebhookCall) : Watched (c.start i (program webhookId request)) := by
  have htakes := @always_program webhookId request
  refine ⟨Pool.start_always h.takes i htakes, h.counts, fun w hw hmax henabled => ?_⟩
  obtain ⟨j, hj⟩ := h.due w hw hmax henabled
  have hji : j ≠ i := by
    rintro rfl
    rw [hfree] at hj
    exact hj.elim nofun fun ⟨_, h⟩ => nomatch h
  exact ⟨j, by rwa [Pool.start_procs_of_ne _ hji]⟩

theorem watched_turn (h : Watched c) (i : Nat) : Watched (c.turn i) := by
  obtain hsame | ⟨op, hl, hstate, hlead⟩ := Pool.turn_cases (h.takes i).here
  · rw [hsame]
    exact h
  · replace hstate : (c.turn i).state = op.apply c.state := hstate
    refine ⟨Pool.turn_always h.takes i, fun w' hw' => ?_, fun w' hw' hmax henabled => ?_⟩
    · rw [hstate] at hw' ⊢
      obtain ⟨w, hw⟩ := exists_of_apply hw'
      have hcount := h.counts w hw
      obtain ⟨-, hzero, -⟩ | ⟨-, hmore, hcount'⟩ | ⟨-, hkept, hcount'⟩ := apply_cases hw hw'
      · omega
      · omega
      · omega
    · rw [hstate] at hw' hmax
      obtain ⟨w, hw⟩ := exists_of_apply hw'
      obtain ⟨-, hzero, -⟩ | ⟨⟨error, rfl⟩, -, -⟩ | ⟨hreset, hkept, -⟩ := apply_cases hw hw'
      · rw [hzero] at hmax
        exact absurd hmax (by decide)
      · exact ⟨i, Or.inl hlead⟩
      · rw [hkept] at hmax
        obtain ⟨hbefore, hdisable⟩ := enabled_apply hreset hw hw' henabled
        obtain ⟨j, hj⟩ := h.due w hw hmax hbefore
        by_cases hji : j = i
        · -- Its own read finds that the failures are enough.
          rw [hji, hl] at hj
          obtain hread | ⟨error, hwrite⟩ := hj
          · cases hread
            refine ⟨i, Or.inr (hlead.1.resolve_left fun hnone => ?_)⟩
            have hlow := (hlead.2 w hw).mp hnone
            exact absurd (hmax.trans (h.counts w hw)) (not_le.mpr hlow)
          · exact absurd (Option.some.inj hwrite) (hdisable error)
        · exact ⟨j, by rwa [Pool.turn_procs_of_ne hji]⟩

theorem watched_perform (h : Watched c) (act : WebhookAct) (hact : Free c act) :
    Watched (c.perform (program webhookId) act) := by
  cases act with
  | turn i => exact watched_turn h i
  | start i request => exact watched_start h hact request

theorem watched_created {name url : String} {events : List String} :
    Watched (created name url events) := by
  have hzero : (created name url events).state.consecutive = 0 := rfl
  refine ⟨fun _ => trivial, fun w _ => Nat.zero_le _, fun w _ hmax => ?_⟩
  rw [hzero] at hmax
  exact absurd hmax (by decide)

theorem disabled_of_finished (h : Watched c) (hfinished : Finished c) {w : Webhook}
    (hw : c.state.webhook = some w) (hmax : maxFailures ≤ c.state.consecutive) :
    w.enabled = false := by
  by_contra henabled
  rw [Bool.not_eq_false] at henabled
  obtain ⟨i, hi⟩ := h.due w hw hmax henabled
  rw [hfinished i] at hi
  exact hi.elim nofun fun ⟨_, h⟩ => nomatch h

end Watched

/-- From the creation of a webhook it is disabled only after enough failures, and nothing that
has happened so far can bring a delivery to do so earlier, if and only if every success and every
re-enabling comes in order.  In every run, enough failures leave it disabled. -/
theorem auto_disable_iff (webhookId name url : String) (events : List String)
    (acts : List WebhookAct) :
    ((∀ n, Robust webhookId
        ((created name url events).performs (program webhookId) (acts.take n))) ↔
      AllMeet (Pool.perform (program webhookId)) InOrder (created name url events) acts) ∧
    (AllMeet (Pool.perform (program webhookId)) InOrder (created name url events) acts →
      AllMeet (Pool.perform (program webhookId)) Justified (created name url events) acts) ∧
    (AllMeet (Pool.perform (program webhookId)) Free (created name url events) acts →
      Finished ((created name url events).performs (program webhookId) acts) →
      ∀ w, ((created name url events).performs (program webhookId) acts).state.webhook = some w →
        maxFailures ≤
          ((created name url events).performs (program webhookId) acts).state.consecutive →
        w.enabled = false) := by
  refine ⟨?_, fun hinOrder => ?_, fun hfree hfinished w hw hmax => ?_⟩
  · exact forall_take_iff_allMeet_of_keeps (I := Ordered) (fun _ => robust_of_ordered)
      (fun _ act h => ordered_perform h act) (fun _ act h => inOrder_of_robust h act)
      ordered_created
  · exact hinOrder.imp (I := Ordered) (fun _ act h => ordered_perform h act)
      (fun _ act h _ => justified_of_ordered h act) ordered_created
  · have hwatched : Watched ((created name url events).performs (program webhookId) acts) :=
      hfree.after (I := Watched) (fun _ act h => watched_perform h act) watched_created
    exact disabled_of_finished hwatched hfinished hw hmax

def pager : Webhook where
  name := "pager"
  url := "https://example.com"
  events := ["sync.failed"]

def blockedDelivery : List WebhookAct :=
  [.start 0 (.deliver pager (.blocked "refused") "9:00"), .turn 0, .turn 0]

def lateDisabling : List WebhookAct :=
  (List.replicate maxFailures blockedDelivery).flatten ++
    [.start 1 (.deliver pager (.answered 200) "9:01"), .turn 1]

instance Free.decidable (c : WebhookPool) : ∀ act, Decidable (Free c act)
  | .start i _ => inferInstanceAs (Decidable ((c.procs i).next? = none))
  | .turn _ => isTrue trivial

/-- The webhook is disabled behind a success. -/
theorem disabled_behind_success :
    ¬∀ (webhookId name url : String) (events : List String) (acts : List WebhookAct),
      AllMeet (Pool.perform (program webhookId)) Free (created name url events) acts →
        AllMeet (Pool.perform (program webhookId)) Justified (created name url events) acts := by
  intro hclaim
  have hfree : AllMeet (Pool.perform (program "1")) Free
      (created "pager" "https://example.com" ["sync.failed"]) (lateDisabling ++ [.turn 0]) := by
    decide +kernel
  have hjustified := (allMeet_append.mp (hclaim _ _ _ _ _ hfree)).2.1
    (some "Auto-disabled after 10 failures: refused") (by decide +kernel) (by decide +kernel)
  exact absurd hjustified (by decide +kernel)

end Sentora.Webhooks
