import Sentora.Locks.DistributedLock

/-!
# Leader election

The document of one election in `leader_election` (`utils/leader_election.py`).  Each worker has
a `LeaderElection` object of its own, whose calls of the database are steps.  A call of
`try_become_leader` makes up to three of them, with the time that it has read before.
-/

namespace Sentora.LeaderElection

open Locks

structure LeaderDoc (W : Type) where
  workerId : W
  acquiredAt : Nat
  expiresAt : Nat
deriving DecidableEq

/-- Where a call of `try_become_leader` is, with the time it has read. -/
inductive Bid
  | inserting (now : Nat)
  | refreshing (now : Nat)
  | takingOver (now : Nat)
deriving DecidableEq

def Bid.now : Bid → Nat
  | .inserting now | .refreshing now | .takingOver now => now

/-- What a call of the database means for the call of `try_become_leader`. -/
inductive BidResult
  | leader
  | follower
  | undecided (bid : Bid)
deriving DecidableEq

section Calls

variable {W : Type} [DecidableEq W] (ttlSeconds : Nat) (w : W)

def leaderDoc (now : Nat) : LeaderDoc W := ⟨w, now, now + seconds ttlSeconds⟩

/-- The `$set` of the expiry, which is all that a heartbeat does. -/
def heartbeat (now : Nat) (doc : Option (LeaderDoc W)) : Option (LeaderDoc W) :=
  doc.map fun d =>
    if d.workerId = w then { d with expiresAt := now + seconds ttlSeconds } else d

/-- `try_become_leader`, one call of the database at a time. -/
def bid (doc : Option (LeaderDoc W)) : Bid → Option (LeaderDoc W) × BidResult
  | .inserting now =>
    match doc with
    | none => (some (leaderDoc ttlSeconds w now), .leader)
    | some _ => (doc, .undecided (.refreshing now))
  | .refreshing now =>
    if doc.any fun d => d.workerId = w then (heartbeat ttlSeconds w now doc, .leader)
    else (doc, .undecided (.takingOver now))
  | .takingOver now =>
    if doc.any fun d => d.expiresAt < now then (some (leaderDoc ttlSeconds w now), .leader)
    else (doc, .follower)

def resign (doc : Option (LeaderDoc W)) : Option (LeaderDoc W) :=
  doc.filter fun d => d.workerId ≠ w

end Calls

/-- The TTL index of the collection has `expireAfterSeconds=0`. -/
def expire {W : Type} (now : Nat) (doc : Option (LeaderDoc W)) : Option (LeaderDoc W) :=
  doc.filter fun d => now < d.expiresAt

/-- A call of `try_become_leader` reads the time once. -/
theorem bid_undecided_now {W : Type} [DecidableEq W] {ttlSeconds : Nat} {w : W}
    {doc : Option (LeaderDoc W)} {b b' : Bid}
    (h : (bid ttlSeconds w doc b).2 = .undecided b') : b'.now = b.now := by
  cases b with
  | inserting now =>
    cases doc with
    | none => cases h
    | some d =>
      cases h
      rfl
  | refreshing now =>
    unfold bid at h
    dsimp only at h
    split at h
    · cases h
    · cases h
      rfl
  | takingOver now =>
    unfold bid at h
    dsimp only at h
    split at h <;> cases h

section Leadership

variable {W : Type} {ttlSeconds now : Nat} {v w : W} {doc : Option (LeaderDoc W)} {b : Bid}

/-- The worker has the document, and its claim has not expired. -/
def Leads (now : Nat) (doc : Option (LeaderDoc W)) (w : W) : Prop :=
  ∃ d, doc = some d ∧ d.workerId = w ∧ now < d.expiresAt

theorem Leads.unique (hv : Leads now doc v) (hw : Leads now doc w) : v = w := by
  obtain ⟨d, hd, rfl, -⟩ := hv
  obtain ⟨d', hd', rfl, -⟩ := hw
  cases hd.symm.trans hd'
  rfl

theorem Leads.expire (h : Leads now doc w) : Leads now (expire now doc) w := by
  obtain ⟨d, rfl, rfl, hnow⟩ := h
  exact ⟨d, by simp [LeaderElection.expire, hnow], rfl, hnow⟩

variable [DecidableEq W]

theorem Leads.heartbeat_self (h : Leads now doc w) (httl : 0 < ttlSeconds) :
    Leads now (heartbeat ttlSeconds w now doc) w := by
  obtain ⟨d, rfl, rfl, -⟩ := h
  refine ⟨{ d with expiresAt := now + seconds ttlSeconds }, by simp [heartbeat], rfl, ?_⟩
  have hpositive : 0 < seconds ttlSeconds := Nat.mul_pos (by decide) httl
  exact Nat.lt_add_of_pos_right hpositive

theorem Leads.heartbeat_other (h : Leads now doc w) (hne : v ≠ w) (read : Nat) :
    Leads now (heartbeat ttlSeconds v read doc) w := by
  obtain ⟨d, rfl, rfl, hnow⟩ := h
  exact ⟨d, by simp [heartbeat, hne.symm], rfl, hnow⟩

theorem Leads.resign_other (h : Leads now doc w) (hne : v ≠ w) : Leads now (resign v doc) w := by
  obtain ⟨d, rfl, rfl, hnow⟩ := h
  exact ⟨d, by simp [resign, hne.symm], rfl, hnow⟩

theorem Leads.bid_other (h : Leads now doc w) (hne : v ≠ w) (hb : b.now ≤ now) :
    (bid ttlSeconds v doc b).1 = doc ∧ (bid ttlSeconds v doc b).2 ≠ .leader := by
  obtain ⟨d, rfl, rfl, hnow⟩ := h
  cases b with
  | inserting read => exact ⟨rfl, nofun⟩
  | refreshing read => simp [bid, hne.symm]
  | takingOver read =>
    have hlive : ¬d.expiresAt < read := by
      have hread : read ≤ now := hb
      omega
    simp [bid, hlive]

theorem leads_of_bid (hleader : (bid ttlSeconds w doc b).2 = .leader)
    (htime : now < b.now + seconds ttlSeconds) :
    Leads now (bid ttlSeconds w doc b).1 w := by
  cases b with
  | inserting read =>
    cases doc with
    | none => exact ⟨_, rfl, rfl, htime⟩
    | some d => cases hleader
  | refreshing read =>
    cases doc with
    | none => cases hleader
    | some d =>
      by_cases howner : d.workerId = w
      · refine ⟨{ d with expiresAt := read + seconds ttlSeconds }, ?_, howner, htime⟩
        simp [bid, heartbeat, howner]
      · simp [bid, howner] at hleader
  | takingOver read =>
    unfold bid at hleader ⊢
    dsimp only at hleader ⊢
    split at hleader
    · rename_i hexpired
      rw [if_pos hexpired]
      exact ⟨_, rfl, rfl, htime⟩
    · cases hleader

end Leadership

end Sentora.LeaderElection
