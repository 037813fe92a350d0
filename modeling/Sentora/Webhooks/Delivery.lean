import Mathlib.Data.String.Basic
import Sentora.Lib.Process
import Sentora.Lib.Groups

/-!
# Webhook delivery

`_deliver`, `update_webhook` and `delete_webhook` of `domains/webhooks/service.py` for one
webhook, cut at their calls of its document.  What comes of the request to the receiver is
given.
-/

namespace Sentora.Webhooks

open Lib Process

def maxFailures : Nat := 10

structure Webhook where
  name : String
  url : String
  events : List String
  enabled : Bool := true
  lastTriggeredAt : Option String := none
  failureCount : Nat := 0
  lastError : Option String := none
deriving DecidableEq

inductive Recorded where
  | failure
  | success
  | reenabled
deriving DecidableEq

structure Store where
  /-- The document. -/
  webhook : Option Webhook
  /-- What has been recorded of it, the latest first. -/
  history : List Recorded := []
deriving DecidableEq

/-- The fields that an admin sets. -/
structure Updates where
  name : Option String
  url : Option String
  events : Option (List String)
  enabled : Option Bool
  resetsFailureCount : Bool
  resets : resetsFailureCount = true → enabled = some true
deriving DecidableEq

inductive WebhookOp where
  | recordFailure (error : String)
  /-- The read behind a recorded failure. -/
  | getFailureCount
  | disable (error : Option String)
  | recordSuccess (now : String)
  | getById
  | update (updates : Updates)
  | delete
  /-- The read of the document that is answered. -/
  | getUpdated
deriving DecidableEq

def Updates.isEmpty (u : Updates) : Bool :=
  u.name.isNone && u.url.isNone && u.events.isNone && u.enabled.isNone

def Updates.set (u : Updates) (w : Webhook) : Webhook :=
  { w with
    name := u.name.getD w.name
    url := u.url.getD w.url
    events := u.events.getD w.events
    enabled := u.enabled.getD w.enabled
    failureCount := if u.resetsFailureCount then 0 else w.failureCount }

def Store.updateOne (recorded : List Recorded) (f : Webhook → Webhook) (s : Store) : Store :=
  match s.webhook with
  | none => s
  | some w => ⟨some (f w), recorded ++ s.history⟩

def WebhookOp.apply : WebhookOp → Store → Store
  | .recordFailure error, s =>
    s.updateOne [.failure] fun w =>
      { w with failureCount := w.failureCount + 1, lastError := some error }
  | .disable error, s =>
    s.updateOne [] fun w =>
      { w with
        enabled := false
        lastError := if error.isSome then error else w.lastError }
  | .recordSuccess now, s =>
    s.updateOne [.success] fun w =>
      { w with failureCount := 0, lastTriggeredAt := some now, lastError := none }
  | .update updates, s =>
    s.updateOne (if updates.enabled = some true then [.reenabled] else []) updates.set
  | .delete, s => { s with webhook := none }
  | .getFailureCount, s => s
  | .getById, s => s
  | .getUpdated, s => s

/-- The errors of the service. -/
inductive WebhookFailure where
  | notFound (message : String)
  | webhook (message : String)
deriving DecidableEq

abbrev Reply := Except WebhookFailure (Option Webhook)

abbrev WebhookM := Process Store WebhookOp

/-- A call, which returns the document that it finds. -/
def call (op : WebhookOp) : WebhookM (Option Webhook) := atomic op fun s => (op.apply s, s.webhook)

/-- What comes of a request to the receiver. -/
inductive Outcome where
  /-- `resolve_and_validate` raises. -/
  | blocked (error : String)
  | answered (statusCode : Nat)
  | raised (error : String)

def disableIf (reached : Bool) (error : Option String) : WebhookM Reply :=
  if reached then do
    let _ ← call (.disable error)
    pure (.ok none)
  else pure (.ok none)

def deliverBlocked (error : String) : WebhookM Reply := do
  let _ ← call (.recordFailure ("Blocked: " ++ error))
  let updated ← call .getFailureCount
  disableIf (updated.any fun w => maxFailures ≤ w.failureCount)
    (some ("Auto-disabled after " ++ toString maxFailures ++ " failures: " ++ error))

/-- The `except` block, with the webhook as it was when the event was dispatched. -/
def deliverFailed (webhook : Webhook) (error : String) : WebhookM Reply := do
  let _ ← call (.recordFailure (String.ofList (error.toList.take 500)))
  let updated ← call .getFailureCount
  let newCount := updated.elim (webhook.failureCount + 1) Webhook.failureCount
  disableIf (maxFailures ≤ newCount) none

def deliverSucceeded (now : String) : WebhookM Reply := do
  let _ ← call (.recordSuccess now)
  pure (.ok none)

def deliver (webhook : Webhook) (outcome : Outcome) (now : String) : WebhookM Reply :=
  match outcome with
  | .blocked error => deliverBlocked error
  | .answered statusCode =>
    if 400 ≤ statusCode then
      deliverFailed webhook ("Webhook returned " ++ toString statusCode)
    else deliverSucceeded now
  | .raised error => deliverFailed webhook error

structure WebhookUpdateRequest where
  name : Option String := none
  url : Option String := none
  events : Option (List String) := none
  enabled : Option Bool := none

def validEvents : List String :=
  ["sync.completed", "sync.failed", "classification.completed",
    "classification.anomaly_detected", "enforcement.check.completed",
    "enforcement.violation.new", "enforcement.violation.resolved",
    "compliance.check.completed", "compliance.violation.new", "compliance.violation.resolved",
    "compliance.score.degraded", "audit.chain.integrity_failure"]

def sorted (names : List String) : List String := names.mergeSort fun a b => a ≤ b

def invalidEvents (invalid : List String) : WebhookFailure :=
  .webhook ("Invalid event(s): " ++ ", ".intercalate (sorted invalid) ++ ". Valid events: " ++
    ", ".intercalate (sorted validEvents))

def notFound (webhookId : String) : WebhookFailure :=
  .notFound ("Webhook '" ++ webhookId ++ "' not found")

def WebhookUpdateRequest.updates (r : WebhookUpdateRequest) (webhook : Webhook) : Updates where
  name := r.name
  url := r.url
  events := r.events.map firstKeys
  enabled := r.enabled
  resetsFailureCount := r.enabled == some true && decide (0 < webhook.failureCount)
  resets h := beq_iff_eq.mp (Bool.and_eq_true_iff.mp h).1

def answer (webhookId : String) : WebhookM Reply := do
  let updated ← call .getUpdated
  pure (updated.elim (.error (notFound webhookId)) fun w => .ok (some w))

def updateWebhook (webhookId : String) (r : WebhookUpdateRequest) : WebhookM Reply := do
  let found ← call .getById
  match found with
  | none => pure (.error (notFound webhookId))
  | some webhook =>
    let invalid := (firstKeys (r.events.getD [])).filter (· ∉ validEvents)
    if invalid ≠ [] then pure (.error (invalidEvents invalid))
    else if (r.updates webhook).isEmpty then answer webhookId
    else do
      let _ ← call (.update (r.updates webhook))
      answer webhookId

def deleteWebhook (webhookId : String) : WebhookM Reply := do
  let found ← call .getById
  match found with
  | none => pure (.error (notFound webhookId))
  | some _ => do
    let _ ← call .delete
    pure (.ok none)

inductive WebhookCall where
  | deliver (webhook : Webhook) (outcome : Outcome) (now : String)
  | update (r : WebhookUpdateRequest)
  | delete

def program (webhookId : String) : WebhookCall → WebhookM Reply
  | .deliver webhook outcome now => deliver webhook outcome now
  | .update r => updateWebhook webhookId r
  | .delete => deleteWebhook webhookId

abbrev WebhookPool := Pool Nat Store WebhookOp (fun _ => Reply)

abbrev WebhookAct := Pool.Act Nat WebhookCall

def created (name url : String) (events : List String) : WebhookPool where
  state := ⟨some { name, url, events }, []⟩
  procs _ := .ret (.ok none)

def WebhookOp.leads : WebhookOp → Store → Option WebhookOp → Prop
  | .recordFailure _, _, next => next = some .getFailureCount
  | .getFailureCount, s, next =>
    (next = none ∨ ∃ error, next = some (.disable error)) ∧
      ∀ w, s.webhook = some w → (next = none ↔ w.failureCount < maxFailures)
  | .getById, _, next =>
    next = none ∨ next = some .delete ∨ next = some .getUpdated ∨
      ∃ updates, next = some (.update updates)
  | .update _, _, next => next = some .getUpdated
  | .disable _, _, next => next = none
  | .recordSuccess _, _, next => next = none
  | .delete, _, next => next = none
  | .getUpdated, _, next => next = none

def course : Course Store WebhookOp := ⟨WebhookOp.apply, WebhookOp.leads⟩

section Course

variable {webhookId : String} {op : WebhookOp} {f : Option Webhook → WebhookM Reply}

theorem always_call_bind (hlead : ∀ s, op.leads s (f s.webhook).next?)
    (hf : ∀ found, (f found).Always (Takes course)) :
    (call op >>= f).Always (Takes course) :=
  ⟨fun s => ⟨rfl, hlead s⟩, fun s => hf s.webhook⟩

theorem always_pure (reply : Reply) : (pure reply : WebhookM Reply).Always (Takes course) := trivial

theorem next?_disableIf {reached : Bool} {error : Option String} :
    (disableIf reached error).next? = if reached then some (.disable error) else none := by
  cases reached with
  | true => rfl
  | false => rfl

theorem always_disableIf {reached : Bool} {error : Option String} :
    (disableIf reached error).Always (Takes course) := by
  cases reached with
  | true => exact always_call_bind (fun _ => rfl) fun _ => always_pure _
  | false => exact always_pure _

theorem leads_getFailureCount {reached : Option Webhook → Bool} {error : Option String}
    (h : ∀ w, reached (some w) = decide (maxFailures ≤ w.failureCount)) (s : Store) :
    WebhookOp.leads .getFailureCount s (disableIf (reached s.webhook) error).next? := by
  rw [next?_disableIf]
  refine ⟨?_, fun w hw => ?_⟩
  · split
    · exact Or.inr ⟨error, rfl⟩
    · exact Or.inl rfl
  · rw [hw, h]
    split
    · rename_i hreached
      exact iff_of_false nofun (not_lt.mpr (of_decide_eq_true hreached))
    · rename_i hreached
      exact iff_of_true rfl (not_le.mp fun hle => hreached (decide_eq_true hle))

theorem always_deliverBlocked {error : String} : (deliverBlocked error).Always (Takes course) :=
  always_call_bind (fun _ => rfl) fun _ =>
    always_call_bind (leads_getFailureCount fun _ => rfl) fun _ => always_disableIf

theorem always_deliverFailed {webhook : Webhook} {error : String} :
    (deliverFailed webhook error).Always (Takes course) := by
  let reached : Option Webhook → Bool := fun updated =>
    maxFailures ≤ updated.elim (webhook.failureCount + 1) Webhook.failureCount
  have hlead := @leads_getFailureCount reached none fun _ => rfl
  exact always_call_bind (fun _ => rfl) fun _ => always_call_bind hlead fun _ => always_disableIf

theorem always_answer : (answer webhookId).Always (Takes course) :=
  always_call_bind (fun _ => rfl) fun _ => always_pure _

theorem always_updateWebhook {r : WebhookUpdateRequest} :
    (updateWebhook webhookId r).Always (Takes course) := by
  refine always_call_bind (fun s => ?_) fun found => ?_
  · cases s.webhook with
    | none => exact Or.inl rfl
    | some webhook =>
      dsimp only
      split
      · exact Or.inl rfl
      · split
        · exact Or.inr (Or.inr (Or.inl rfl))
        · exact Or.inr (Or.inr (Or.inr ⟨_, rfl⟩))
  · cases found with
    | none => exact always_pure _
    | some webhook =>
      dsimp only
      split
      · exact always_pure _
      · split
        · exact always_answer
        · exact always_call_bind (fun _ => rfl) fun _ => always_answer

theorem always_deleteWebhook : (deleteWebhook webhookId).Always (Takes course) := by
  refine always_call_bind (fun s => ?_) fun found => ?_
  · cases s.webhook with
    | none => exact Or.inl rfl
    | some webhook => exact Or.inr (Or.inl rfl)
  · cases found with
    | none => exact always_pure _
    | some webhook => exact always_call_bind (fun _ => rfl) fun _ => always_pure _

theorem always_program (request : WebhookCall) :
    (program webhookId request).Always (Takes course) := by
  cases request with
  | update r => exact always_updateWebhook
  | delete => exact always_deleteWebhook
  | deliver webhook outcome now =>
    cases outcome with
    | blocked error => exact always_deliverBlocked
    | raised error => exact always_deliverFailed
    | answered statusCode =>
      show (if 400 ≤ statusCode then _ else _ : WebhookM Reply).Always (Takes course)
      split
      · exact always_deliverFailed
      · exact always_call_bind (fun _ => rfl) fun _ => always_pure _

theorem next?_program_ne_disable {request : WebhookCall} {error : Option String} :
    (program webhookId request).next? ≠ some (.disable error) := by
  cases request with
  | update r => exact nofun
  | delete => exact nofun
  | deliver webhook outcome now =>
    cases outcome with
    | blocked error => exact nofun
    | raised error => exact nofun
    | answered statusCode =>
      show (if 400 ≤ statusCode then _ else _ : WebhookM Reply).next? ≠ _
      split
      · exact nofun
      · exact nofun

end Course

end Sentora.Webhooks
