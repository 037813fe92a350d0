import Sentora.Audit.Commands
import Sentora.Lib.Machine

/-!
# Writing an audit event

One call of `audit()` (`audit/log.py`), with the append it makes to the chain, the
plain write it falls back to, and the retries of its entry in the background.

A step that raises leads to another write of the same event.  This is harmless where
the document still has the `_id` of the first write, which the collection refuses; the
plain write and a failed broadcast take the `_id` from it.
-/

namespace Sentora.Audit

open Lib

/-- The arguments of `audit()`. -/
structure AuditArgs where
  domain : String
  action : String
  actor : String := "system"
  status : String := "success"
  summary : String
  details : Option (List (String × Val)) := none

def AuditArgs.toAppend (a : AuditArgs) (clock : DateTime) : AppendArgs :=
  { domain := a.domain, action := a.action, actor := a.actor, status := a.status
    summary := a.summary, details := a.details, clock := clock }

/-- The document of `_write_plain`. -/
def plainDoc (a : AuditArgs) (clock : DateTime) : Doc :=
  { oid := 0
    sequence := none
    epoch := none
    timestamp := some (.date (utcNow clock))
    domain := some (.str a.domain)
    action := some (.str a.action)
    actor := some (.str a.actor)
    status := some (.str a.status)
    summary := some (.str a.summary)
    details := some (.dict (a.details.getD []))
    tenantId := none
    previousHash := none
    isEpochStart := none
    isEpochEnd := none
    previousEpochHash := none
    hash := none
    extra := [] }

def maxRetries : Nat := 3

/-- Where the event is.  A document has its `_id` from the insert on until it is
popped; `written` says that the append has returned. -/
inductive Stage where
  | start
  | appending
  | inserting (entry : Doc) (second : Bool)
  | releasing (written : Bool)
  | broadcasting
  | plain
  | plainBroadcasting (doc : Doc)
  | queued (doc : Doc) (id : Option Nat) (attempt : Nat)
  | retryBroadcasting (doc : Doc) (attempt : Nat)
  | done

/-- The event, with the documents of `audit_log` that it has been stored in. -/
structure Event where
  stage : Stage := .start
  stored : List Doc := []
  nextId : Nat

namespace Event

/-- An `_id` and a sequence are stored once. -/
def refused (e : Event) (id : Nat) (entry : Doc) : Bool :=
  (e.stored.any fun d => d.oid = id) || duplicateKey e.stored entry

/-- `insert_one`, with whether the caller sees it succeed. -/
def insert (outcome : InsertOutcome) (id : Nat) (entry : Doc) (e : Event) : Event × Bool :=
  if e.refused id entry then (e, false)
  else
    match outcome with
    | .applied => ({ e with stored := e.stored ++ [readBack entry id] }, true)
    | .notApplied => (e, false)
    | .lostAck => ({ e with stored := e.stored ++ [readBack entry id] }, false)

def goto (stage : Stage) (e : Event) : Event := { e with stage := stage }

/-- The next `_id` is drawn. -/
def draw (e : Event) : Event := { e with nextId := e.nextId + 1 }

def insertChained (outcome : InsertOutcome) (entry : Doc) (second : Bool) (e : Event) : Event :=
  match e.draw.insert outcome e.nextId entry with
  | (e', true) => e'.goto (.releasing true)
  | (e', false) => e'.goto (if second then .releasing false else .inserting entry true)

/-- The insert of `_write_plain`. -/
def insertPlain (outcome : InsertOutcome) (doc : Doc) (e : Event) : Event :=
  match e.draw.insert outcome e.nextId doc with
  | (e', true) => e'.goto (.plainBroadcasting doc)
  | (e', false) => e'.goto (.queued doc none 0)

/-- An attempt has failed: the entry is queued again, or given up. -/
def requeue (doc : Doc) (id : Option Nat) (attempt : Nat) (e : Event) : Event :=
  if attempt + 1 < maxRetries then e.goto (.queued doc id (attempt + 1)) else e.goto .done

/-- The insert of `_drain_retry_queue`.  A document without an `_id` gets one. -/
def retry (outcome : InsertOutcome) (doc : Doc) (id : Option Nat) (attempt : Nat) (e : Event) :
    Event :=
  let id' := id.getD e.nextId
  match e.draw.insert outcome id' doc with
  | (e', true) => e'.goto (.retryBroadcasting doc attempt)
  | (e', false) => e'.requeue doc (some id') attempt

def retryCancelled (outcome : InsertOutcome) (doc : Doc) (id : Option Nat) (attempt : Nat)
    (e : Event) : Event :=
  let id' := id.getD e.nextId
  (e.draw.insert outcome id' doc).1.goto (.queued doc (some id') attempt)

/-- What happens to the event.  `fails` is an exception of the step. -/
inductive Act where
  | check (chainActive : Bool)
  | appendFails
  | allocate (clock : DateTime) (sequence epoch : Int) (previousHash : Val) (isEpochStart : Bool)
      (prevEpochHash : Val)
  | insertChained (outcome : InsertOutcome)
  | release (fails : Bool)
  | broadcast (fails : Bool)
  | insertPlain (clock : DateTime) (outcome : InsertOutcome)
  | retry (outcome : InsertOutcome)
  | retryCancelled (outcome : InsertOutcome)
  | broadcastCancelled
  | drop

variable (rt : Runtime) (a : AuditArgs)

def next (e : Event) : Act → Event
  | .check chainActive => e.goto (if chainActive then .appending else .plain)
  | .appendFails => e.goto .plain
  | .allocate clock sequence epoch previousHash isEpochStart prevEpochHash =>
    let entry := chainEntry (a.toAppend clock) sequence epoch previousHash isEpochStart
      prevEpochHash
    e.goto (.inserting (withHash rt entry previousHash) false)
  | .insertChained outcome =>
    match e.stage with
    | .inserting entry second => e.insertChained outcome entry second
    | _ => e
  | .release fails =>
    match e.stage with
    | .releasing written => e.goto (if written && !fails then .broadcasting else .plain)
    | _ => e
  | .broadcast fails =>
    match e.stage with
    | .broadcasting => e.goto (if fails then .plain else .done)
    | .plainBroadcasting doc => e.goto (if fails then .queued doc none 0 else .done)
    | .retryBroadcasting doc attempt =>
      if fails then e.requeue doc none attempt else e.goto .done
    | _ => e
  | .insertPlain clock outcome => e.insertPlain outcome (plainDoc a clock)
  | .retry outcome =>
    match e.stage with
    | .queued doc id attempt => e.retry outcome doc id attempt
    | _ => e
  | .retryCancelled outcome =>
    match e.stage with
    | .queued doc id attempt => e.retryCancelled outcome doc id attempt
    | _ => e
  | .broadcastCancelled =>
    match e.stage with
    | .retryBroadcasting doc attempt => e.goto (.queued doc none attempt)
    | _ => e
  -- the call is cancelled, or the entry is lost with its queue
  | .drop => e.goto .done

def Enabled (e : Event) : Act → Prop
  | .check _ => e.stage = .start
  | .appendFails | .allocate .. => e.stage = .appending
  | .insertChained _ => ∃ entry second, e.stage = .inserting entry second
  | .release _ => ∃ written, e.stage = .releasing written
  | .broadcast _ =>
    e.stage = .broadcasting ∨ (∃ doc, e.stage = .plainBroadcasting doc) ∨
      ∃ doc attempt, e.stage = .retryBroadcasting doc attempt
  | .insertPlain _ _ => e.stage = .plain
  | .retry _ | .retryCancelled _ => ∃ doc id attempt, e.stage = .queued doc id attempt
  | .broadcastCancelled => ∃ doc attempt, e.stage = .retryBroadcasting doc attempt
  | .drop => True

def machine : Machine Event Act := ⟨Enabled, next rt a⟩

/-- The step does not fail after the event is stored, if it is written again then under
a fresh `_id`. -/
def Clean (e : Event) : Act → Prop
  | .insertChained outcome | .insertPlain _ outcome => outcome ≠ .lostAck
  | .release fails => fails = true → e.stage = .releasing false
  | .broadcast fails =>
    fails = true → ∃ doc attempt, e.stage = .retryBroadcasting doc attempt ∧
      maxRetries ≤ attempt + 1
  | .broadcastCancelled => False
  | .check _ | .appendFails | .allocate .. | .retry _ | .retryCancelled _ | .drop => True

/-- The event is stored once or not at all, and under this `_id`. -/
def StoredAs (stored : List Doc) (id : Nat) : Prop := ∀ d ∈ stored, stored = [d] ∧ d.oid = id

def Sound (e : Event) : Prop :=
  match e.stage with
  | .start | .appending | .inserting _ _ | .releasing false | .plain | .queued _ none _ =>
    e.stored = []
  | .queued _ (some id) _ => StoredAs e.stored id
  | .releasing true | .broadcasting | .plainBroadcasting _ | .retryBroadcasting _ _ | .done =>
    e.stored.length ≤ 1

variable {rt a} {e : Event}

theorem insert_of_empty {outcome : InsertOutcome} {id : Nat} {entry : Doc}
    (hstored : e.stored = []) :
    (e.insert outcome id entry).1.stored =
        (if outcome = .notApplied then [] else [readBack entry id]) ∧
      ((e.insert outcome id entry).2 = true ↔ outcome = .applied) := by
  have hrefused : e.refused id entry = false := by
    rw [refused, hstored, duplicateKey]
    cases entry.sequence <;> rfl
  simp only [Event.insert, hrefused, Bool.false_eq_true, if_false]
  cases outcome <;> simp [hstored]

theorem insert_answered (id : Nat) (entry : Doc) {outcome : InsertOutcome} {e' : Event}
    {written : Bool} (hstored : e.stored = []) (hanswered : outcome ≠ .lostAck)
    (h : e.insert outcome id entry = (e', written)) :
    if written then e'.stored.length ≤ 1 else e'.stored = [] := by
  obtain ⟨hafter, hok⟩ := insert_of_empty hstored
  rw [h] at hafter hok
  cases outcome with
  | applied =>
    rw [if_pos (hok.2 rfl), hafter]
    exact le_refl 1
  | notApplied =>
    rw [if_neg fun hw => absurd (hok.1 hw) (by simp)]
    exact hafter
  | lostAck => exact absurd rfl hanswered

theorem insert_of_stored {outcome : InsertOutcome} {entry d : Doc} (hstored : e.stored = [d]) :
    e.insert outcome d.oid entry = (e, false) := by
  have hrefused : e.refused d.oid entry = true := by simp [refused, hstored]
  simp only [Event.insert, hrefused, if_true]

theorem storedAs_nil (id : Nat) : StoredAs [] id := fun _ hd => nomatch hd

theorem StoredAs.length_le_one {stored : List Doc} {id : Nat} (h : StoredAs stored id) :
    stored.length ≤ 1 := by
  cases stored with
  | nil => exact Nat.zero_le 1
  | cons d ds =>
    rw [(h d List.mem_cons_self).1]
    exact le_refl 1

theorem StoredAs.insert {outcome : InsertOutcome} {id : Nat} {entry : Doc}
    (h : StoredAs e.stored id) : StoredAs (e.insert outcome id entry).1.stored id := by
  cases hs : e.stored with
  | nil =>
    rw [(insert_of_empty hs).1]
    split
    · exact storedAs_nil id
    · intro d hd
      rw [List.mem_singleton.1 hd]
      exact ⟨rfl, rfl⟩
  | cons d ds =>
    obtain ⟨hone, rfl⟩ := h d (by rw [hs]; exact List.mem_cons_self)
    rw [insert_of_stored hone]
    exact h

theorem Sound.storedAs {doc : Doc} {id : Option Nat} {attempt : Nat} (h : e.Sound)
    (hstage : e.stage = .queued doc id attempt) : StoredAs e.stored (id.getD e.nextId) := by
  rw [Sound, hstage] at h
  cases id with
  | none =>
    rw [show e.stored = [] from h]
    exact storedAs_nil _
  | some i => exact h

theorem Sound.length_le_one (h : e.Sound) : e.stored.length ≤ 1 := by
  unfold Sound at h
  split at h <;> first
    | exact h
    | exact StoredAs.length_le_one h
    | (rw [h]; exact Nat.zero_le 1)

theorem sound_keeps (rt : Runtime) (a : AuditArgs) : (machine rt a).Keeps Clean Sound := by
  intro e act henabled hclean h
  cases act with
  | check chainActive =>
    have hstage : e.stage = .start := henabled
    rw [Sound, hstage] at h
    cases chainActive <;> exact h
  | appendFails =>
    have hstage : e.stage = .appending := henabled
    rw [Sound, hstage] at h
    exact h
  | allocate clock sequence epoch previousHash isEpochStart prevEpochHash =>
    have hstage : e.stage = .appending := henabled
    rw [Sound, hstage] at h
    exact h
  | insertChained outcome =>
    obtain ⟨entry, second, hstage⟩ := henabled
    rw [Sound, hstage] at h
    simp only [machine, next, hstage, insertChained]
    cases hr : e.draw.insert outcome e.nextId entry with
    | mk e' written =>
      have hafter := insert_answered (e := e.draw) e.nextId entry h hclean hr
      cases written with
      | true => exact hafter
      | false => cases second <;> exact hafter
  | release fails =>
    obtain ⟨written, hstage⟩ := henabled
    rw [Sound, hstage] at h
    simp only [machine, next, hstage]
    cases written with
    | false => exact h
    | true =>
      cases fails with
      | false => exact h
      | true =>
        have hfalse := hclean rfl
        rw [hstage] at hfalse
        cases hfalse
  | broadcast fails =>
    cases fails with
    | true =>
      obtain ⟨doc, attempt, hstage, hlast⟩ := hclean rfl
      simp only [machine, next, hstage, requeue, if_neg (Nat.not_lt.2 hlast), if_true]
      exact h.length_le_one
    | false =>
      obtain hstage | ⟨doc, hstage⟩ | ⟨doc, attempt, hstage⟩ := henabled
      · simp only [machine, next, hstage]
        exact h.length_le_one
      · simp only [machine, next, hstage]
        exact h.length_le_one
      · simp only [machine, next, hstage]
        exact h.length_le_one
  | insertPlain clock outcome =>
    have hstage : e.stage = .plain := henabled
    rw [Sound, hstage] at h
    simp only [machine, next, insertPlain]
    cases hr : e.draw.insert outcome e.nextId (plainDoc a clock) with
    | mk e' written =>
      have hafter := insert_answered (e := e.draw) e.nextId (plainDoc a clock) h hclean hr
      cases written <;> exact hafter
  | retry outcome =>
    obtain ⟨doc, id, attempt, hstage⟩ := henabled
    have hafter : StoredAs (e.draw.insert outcome (id.getD e.nextId) doc).1.stored
        (id.getD e.nextId) := StoredAs.insert (h.storedAs hstage)
    simp only [machine, next, hstage, Event.retry]
    cases hr : e.draw.insert outcome (id.getD e.nextId) doc with
    | mk e' written =>
      rw [hr] at hafter
      cases written with
      | true => exact hafter.length_le_one
      | false =>
        simp only [requeue]
        split
        · exact hafter
        · exact hafter.length_le_one
  | retryCancelled outcome =>
    obtain ⟨doc, id, attempt, hstage⟩ := henabled
    have hafter : StoredAs (e.draw.insert outcome (id.getD e.nextId) doc).1.stored
        (id.getD e.nextId) := StoredAs.insert (h.storedAs hstage)
    simp only [machine, next, hstage]
    exact hafter
  | broadcastCancelled => exact absurd hclean id
  | drop => exact h.length_le_one

/-- A call that has just been made. -/
structure Fresh (e : Event) : Prop where
  stage : e.stage = .start
  stored : e.stored = []

def sampleTime : DateTime := ⟨2026, 3, 4, 5, 6, 7, 890123, none⟩

def appended : List Act :=
  [.check true, .allocate sampleTime 1 0 .none false .none, .insertChained .applied,
    .release false]

end Event

end Sentora.Audit
