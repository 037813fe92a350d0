import Sentora.Lib.LogReader
import Sentora.Sync.Manager
import Sentora.Sync.RunTotals

/-!
# Delivery of the progress messages

What a client is still owed of a broadcast: the worker's own message until it is sent
to the clients, that of another worker until it is published and read.  With what the
client has got, this is one message, as long as the workers recognise their own posts
and no reader takes a post for seen that it has not read.
-/

/-! ## The relay of progress messages

The sync managers of several workers, with the capped collection that carries
their messages (`utils/pubsub.py`) and their WebSocket clients.

A worker takes a message for its own when it has the run id of the current run.
When a run is closed there is no current run any more, so that the last message of
the run comes back to the clients of the worker that has sent it.
-/

namespace Sentora
namespace Progress

open Lib

/-- A document of `_pubsub_messages`.  The number tells the broadcasts apart. -/
structure Post (W : Type) where
  id : Nat
  origin : W
  number : Nat
  message : ProgressMessage
  createdAt : Nat

structure Relay (W C : Type) where
  manager : W → Manager
  /-- The broadcast for which a manager holds its lock. -/
  number : W → Nat
  /-- The worker of each broadcast. -/
  origins : List W
  log : List (Post W)
  reader : W → LogReader (Post W) Nat
  /-- The number of broadcasts when the client was connected. -/
  clients : W → C → Option Nat
  inbox : W → C → List Nat

namespace Relay

variable {W C : Type}

section Steps

variable [DecidableEq W] [DecidableEq C] (crowdStrike : Bool)

def sendClients (x : W) (number : Nat) (s : Relay W C) : Relay W C :=
  { s with
    inbox := fun y c =>
      if y = x ∧ (s.clients y c).isSome then s.inbox y c ++ [number] else s.inbox y c }

/-- The test of `_on_pubsub_message`. -/
def skips (m : Manager) (message : ProgressMessage) : Bool :=
  match m.currentRun with
  | some run => run.id ≠ "" && message.runId = run.id
  | none => false

def onPubsubMessage (x : W) (post : Post W) (s : Relay W C) : Relay W C :=
  if skips (s.manager x) post.message then s else s.sendClients x post.number

/-- `_dispatch` of the next document. -/
def read (x : W) (s : Relay W C) : Relay W C :=
  match (s.reader x).next? Post.id Post.createdAt s.log with
  | some (post, r) => { s with reader := Function.update s.reader x r }.onPubsubMessage x post
  | none => s

def publish (x : W) (id createdAt : Nat) (s : Relay W C) : Relay W C :=
  match (s.manager x).lock with
  | .publishing _ _ message =>
    { s with
      manager := Function.update s.manager x ((s.manager x).next crowdStrike .publish)
      log := s.log ++ [⟨id, x, s.number x, message, createdAt⟩] }
  | _ => s

def inner (x : W) (i : Attempt) (newId : String) (s : Relay W C) : Relay W C :=
  { s with
    manager := Function.update s.manager x ((s.manager x).next crowdStrike (.inner i newId))
    number := Function.update s.number x s.origins.length
    origins := s.origins ++ [x] }

inductive Act (W C : Type)
  | manager (x : W) (act : Manager.Act)
  | inner (x : W) (i : Attempt) (newId : String)
  | send (x : W)
  | publish (x : W) (id createdAt : Nat)
  | read (x : W)
  | poll (x : W)
  | fallback (x : W) (now : Nat)
  | connect (x : W) (c : C)
  | disconnect (x : W) (c : C)

def next (s : Relay W C) : Act W C → Relay W C
  | .manager x act =>
    { s with manager := Function.update s.manager x ((s.manager x).next crowdStrike act) }
  | .inner x i newId => s.inner crowdStrike x i newId
  | .send x =>
    { s with
      manager := Function.update s.manager x ((s.manager x).next crowdStrike .send) }.sendClients
        x (s.number x)
  | .publish x id createdAt => s.publish crowdStrike x id createdAt
  | .read x => s.read x
  | .poll x =>
    { s with reader := Function.update s.reader x ((s.reader x).poll Post.createdAt s.log) }
  -- the tailable cursor has failed
  | .fallback x now => { s with reader := Function.update s.reader x (.polling now []) }
  | .connect x c =>
    { s with
      clients := fun y d => if y = x ∧ d = c then some s.origins.length else s.clients y d
      inbox := fun y d => if y = x ∧ d = c then [] else s.inbox y d }
  | .disconnect x c =>
    { s with clients := fun y d => if y = x ∧ d = c then none else s.clients y d }

/-- The acts of a manager that take no part in a broadcast, and `_persist_run`. -/
def quiet : Manager.Act → Bool
  | .inner _ _ | .send | .publish => false
  | _ => true

def Enabled (s : Relay W C) : Act W C → Prop
  | .manager x act => quiet act = true ∧ (s.manager x).Enabled crowdStrike act
  | .inner x i newId => (s.manager x).Enabled crowdStrike (.inner i newId)
  | .send x => (s.manager x).Enabled crowdStrike .send
  | .publish x _ _ => (s.manager x).Enabled crowdStrike .publish
  | .read x => ((s.reader x).next? Post.id Post.createdAt s.log).isSome
  | .poll _ | .connect _ _ | .disconnect _ _ => True
  | .fallback x _ => ∃ since read, s.reader x = .tailing since read

def machine : Machine (Relay W C) (Act W C) := ⟨Enabled crowdStrike, next crowdStrike⟩

end Steps

end Relay

end Progress
end Sentora

namespace Sentora
namespace Progress

open Lib

/-- The holder of the lock has still to send its message to the clients. -/
def BroadcastLock.unsent : BroadcastLock → Bool
  | .persisting .. | .sending .. => true
  | .free | .publishing .. => false

/-- The holder of the lock has still to publish its message. -/
def BroadcastLock.unpublished : BroadcastLock → Bool
  | .free => false
  | .persisting .. | .sending .. | .publishing .. => true

namespace Relay

variable {W C : Type}

def unread (s : Relay W C) (x : W) : List (Post W) :=
  (s.reader x).unread Post.id Post.createdAt s.log

def toSend (s : Relay W C) (x : W) (k : Nat) : Nat :=
  if (s.manager x).lock.unsent ∧ s.number x = k then 1 else 0

def toPublish (s : Relay W C) (x : W) (k : Nat) : Nat :=
  if (s.manager x).lock.unpublished ∧ s.number x = k then 1 else 0

def toRead (s : Relay W C) (x : W) (k : Nat) : Nat :=
  (s.unread x).countP fun post => post.number = k

/-- A post that is published is ahead of what each reader has seen, and a reader that
falls back to polling starts where it has stopped. -/
def InOrder (s : Relay W C) : Act W C → Prop
  | .publish x id createdAt =>
    ∀ y message, (s.reader y).Awaits Post.id Post.createdAt ⟨id, x, s.number x, message, createdAt⟩
  | .fallback x now =>
    (LogReader.polling now []).unread Post.id Post.createdAt s.log = s.unread x
  | _ => True

/-- With what a client has still to get of a broadcast, it gets it once. -/
structure Exact (s : Relay W C) : Prop where
  within : ∀ x, (s.reader x).Within Post.id s.log
  posts : ∀ post ∈ s.log, s.origins[post.number]? = some post.origin
  held : ∀ x, (s.manager x).lock.unpublished = true → s.origins[s.number x]? = some x
  old : ∀ x c, ∀ k ∈ s.inbox x c, k < s.origins.length
  own : ∀ x c n k, s.clients x c = some n → n ≤ k → s.origins[k]? = some x →
    (s.inbox x c).count k + s.toSend x k = 1
  other : ∀ x c n k o, s.clients x c = some n → n ≤ k → s.origins[k]? = some o → o ≠ x →
    (s.inbox x c).count k + (s.toPublish o k + s.toRead x k) = 1

/-- No message is on its way, and the clients have been connected just now. -/
structure AtRest (s : Relay W C) : Prop where
  within : ∀ x, (s.reader x).Within Post.id s.log
  posts : ∀ post ∈ s.log, s.origins[post.number]? = some post.origin
  free : ∀ x, (s.manager x).lock = .free
  old : ∀ x c, ∀ k ∈ s.inbox x c, k < s.origins.length
  clients : ∀ x c n, s.clients x c = some n → n = s.origins.length

theorem AtRest.exact {s : Relay W C} (h : s.AtRest) : s.Exact where
  within := h.within
  posts := h.posts
  held x hx := by rw [h.free x] at hx; cases hx
  old := h.old
  own x c n k hclient hn ho := by
    have hlt := (List.getElem?_eq_some_iff.1 ho).1
    have heq := h.clients x c n hclient
    omega
  other x c n k o hclient hn ho _ := by
    have hlt := (List.getElem?_eq_some_iff.1 ho).1
    have heq := h.clients x c n hclient
    omega

section Steps

variable {crowdStrike : Bool} {s : Relay W C} {x y : W} {k : Nat}

section Acts

variable [DecidableEq W] [DecidableEq C]

end Acts

end Steps

/-- No message is on its way. -/
def Settled (s : Relay W C) : Prop :=
  ∀ x, (s.manager x).lock = .free ∧ s.unread x = []

section OnePhase

variable {W : Type}

def closing (x : W) : List (Act W Unit) :=
  [.manager x (.finish (attempt .sites) .completed), .manager x (.clear (attempt .sites)),
    .inner x (attempt .sites) "new", .manager x .persist, .send x, .publish x 2 2, .read x]

end OnePhase

end Relay

end Progress
end Sentora
