import Sentora.Locks.DistributedLock

/-!
# Exclusion

Whether two objects of one name can have `_acquired` set at the same time.

A heartbeat whose update raises ends the task, while `_acquired` stays set: the
document then expires, and the next object takes it over.
-/

namespace Sentora.Locks

open Lib

variable {ι : Type} {ttl : ι → Nat} {s : State ι} {act : Act ι} {i : ι}

/-- The live document is that of `i`. -/
def State.Held (s : State ι) (i : ι) : Prop :=
  ∃ d, s.doc = some d ∧ d.ownerId = i ∧ s.now < d.expiresAt

theorem State.Held.unique {j : ι} (hi : s.Held i) (hj : s.Held j) : i = j := by
  obtain ⟨d, hd, howner, -⟩ := hi
  obtain ⟨d', hd', howner', -⟩ := hj
  rw [hd, Option.some.injEq] at hd'
  rw [← howner, ← howner', hd']

variable [DecidableEq ι]

theorem State.Held.refresh (h : s.Held i) (ttl : ι → Nat) {j : ι} (hj : 0 < ttl j) :
    (refresh ttl j s).Held i := by
  obtain ⟨d, hd, howner, hlive⟩ := h
  by_cases hij : d.ownerId = j
  · refine ⟨_, refresh_doc hd hij, howner, ?_⟩
    simp only [Locks.refresh, seconds]
    omega
  · exact ⟨d, refresh_doc_other hd hij, howner, hlive⟩

/-- A live document is there until its owner deletes it or the clock goes on. -/
theorem State.Held.next (h : s.Held i) (hleased : Leased ttl s) (henabled : Enabled s act)
    (hdelete : act ≠ .delete i) (htick : ∀ d, act ≠ .tick d) : (next ttl s act).Held i := by
  obtain ⟨d, hd, howner, hlive⟩ := h
  have hheld : s.Held i := ⟨d, hd, howner, hlive⟩
  cases act with
  | acquire j => exact hheld
  | insert j =>
    simp only [Locks.next]
    split
    case h_1 =>
      simp only [insertOne, hd]
      exact hheld
    case h_2 => exact hheld
  | takeOver j =>
    simp only [Locks.next]
    split
    case h_1 t hcall =>
      have ht : t ≤ s.now := (hleased j).reading t (by rw [hcall]; rfl)
      have hnone : (s.doc.filter fun d => d.expiresAt < t) = none := by
        rw [hd, Option.filter_some_eq_none, decide_eq_true_eq]
        omega
      rw [takeOver, hnone]
      exact hheld
    case h_2 => exact hheld
  | answer j =>
    simp only [Locks.next]
    split
    case h_1 won _ => cases won <;> exact hheld
    case h_2 => exact hheld
  | heartbeat j =>
    obtain ⟨d', hd', howner', -⟩ := hleased.owner henabled
    have hmargin := (hleased j).margin (by rw [show _ = some s.now from henabled]; simp)
    simp only [Locks.next, heartbeat_of_owner hd' howner']
    exact hheld.refresh ttl (by omega)
  | heartbeatFails j applied =>
    have hmargin := (hleased j).margin (by rw [show _ = some s.now from henabled]; simp)
    cases applied with
    | false => exact hheld
    | true => exact hheld.refresh ttl (by omega)
  | release j => exact hheld
  | delete j =>
    have hij : d.ownerId ≠ j := by
      rintro rfl
      exact hdelete (by rw [howner])
    refine ⟨d, ?_, howner, hlive⟩
    simp [Locks.next, deleteOne, State.put, hd, hij]
  | clear j => exact hheld
  | expire =>
    refine ⟨d, ?_, howner, hlive⟩
    simp [Locks.next, hd, hlive]
  | tick d => exact absurd rfl (htick d)

theorem acquired_next (h : ((next ttl s act).object i).acquired = true) :
    (s.object i).acquired = true ∨
      act = .answer i ∧ ∃ t, (s.object i).call = .answered t true := by
  by_cases hsubject : act.subject? = some i
  · cases act with
    | expire | tick _ => cases hsubject
    | acquire j | release j | delete j =>
      cases hsubject
      exact .inl (by simpa [next, acquire, release, deleteOne] using h)
    | clear j =>
      cases hsubject
      simp [next, clear] at h
    | heartbeatFails j applied =>
      cases hsubject
      exact .inl (by simpa [next, heartbeatFails] using h)
    | insert j =>
      cases hsubject
      simp only [next, insertOne] at h
      split at h <;> try split at h
      all_goals simp_all
    | takeOver j =>
      cases hsubject
      simp only [next, takeOver] at h
      split at h <;> try split at h
      all_goals simp_all
    | answer j =>
      cases hsubject
      simp only [next, answer] at h
      split at h <;> try split at h
      all_goals simp_all
    | heartbeat j =>
      cases hsubject
      simp only [next, heartbeat] at h
      split at h
      all_goals simp_all
  · rw [next_object ttl hsubject] at h
    exact .inl h

theorem Leased.deleted (h : Leased ttl s) (henabled : Enabled s act)
    (hcall : (s.object i).call = .deleted) (hact : act ≠ .clear i) :
    ((next ttl s act).object i).call = .deleted := by
  rw [next_object, hcall]
  intro hsubject
  have htask := (h i).releasing (.inr hcall)
  cases act with
  | expire | tick _ => cases hsubject
  | clear j => exact hact (by rw [Option.some.inj hsubject])
  | acquire j | insert j | takeOver j | answer j | heartbeat j | heartbeatFails j applied
  | release j | delete j =>
    cases hsubject
    simp [Enabled, hcall, htask, Call.isInserting, Call.isTakingOver, Call.isAnswered] at henabled

omit [DecidableEq ι] in
theorem Leased.told (h : Leased ttl s) {t : Nat} (hcall : (s.object i).call = .answered t true)
    (htime : InTime ttl s (.answer i)) : s.Held i := by
  have hlt : s.now + seconds (interval (ttl i)) < t + seconds (ttl i) := by
    simpa [InTime, hcall, Call.won?] using htime
  obtain ⟨-, hdoc | hlate⟩ := (h i).won t hcall
  · exact ⟨lockDoc ttl i t, hdoc, rfl, (Nat.le_add_right _ _).trans_lt hlt⟩
  · omega

/-- A holder that has not deleted its document has a live one. -/
def State.Holding (s : State ι) : Prop :=
  ∀ i, (s.object i).acquired = true → (s.object i).call = .deleted ∨ s.Held i

/-- The clock does not reach the expiry of a document whose owner has
`_acquired` set and no running heartbeat task. -/
def Renewed (s : State ι) : Act ι → Prop
  | .tick d => ∀ doc ∈ s.doc, (s.object doc.ownerId).acquired = true →
      (s.object doc.ownerId).heartbeatTask = none → s.now + d < doc.expiresAt
  | _ => True

theorem State.Holding.next (h : s.Holding) (hleased : Leased ttl s) (henabled : Enabled s act)
    (htime : InTime ttl s act) (hrenewed : Renewed s act) : (next ttl s act).Holding := by
  intro i hacquired
  obtain hbefore | ⟨rfl, t, hcall⟩ := acquired_next hacquired
  · obtain hdeleted | hheld := h i hbefore
    · left
      refine hleased.deleted henabled hdeleted ?_
      rintro rfl
      simp [Locks.next, clear] at hacquired
    · by_cases hdelete : act = .delete i
      · left
        simp [hdelete, Locks.next, deleteOne]
      · right
        by_cases htick : ∃ d, act = .tick d
        · obtain ⟨d, rfl⟩ := htick
          obtain ⟨doc, hdoc, rfl, hlive⟩ := hheld
          refine ⟨doc, hdoc, rfl, ?_⟩
          cases htask : (s.object doc.ownerId).heartbeatTask with
          | none => exact hrenewed doc hdoc hbefore htask
          | some due =>
            -- the clock stops where the task wakes up
            obtain ⟨-, doc', hdoc', -, hlt⟩ := (hleased _).beating due htask
            have hdue : s.now + d ≤ due := henabled _ due htask
            rw [hdoc, Option.some.injEq] at hdoc'
            subst hdoc'
            exact hdue.trans_lt hlt
        · exact hheld.next hleased henabled hdelete fun d hd => htick ⟨d, hd⟩
  · right
    exact (hleased.told hcall htime).next hleased henabled (by simp) (by simp)

/-- A flag is cleared before another object is told that it has the lock. -/
def Cleared (s : State ι) : Act ι → Prop
  | .answer i => (s.object i).call.won? ≠ none → ∀ j, (s.object j).call ≠ .deleted
  | _ => True

def Careful (ttl : ι → Nat) (s : State ι) (act : Act ι) : Prop :=
  InTime ttl s act ∧ Renewed s act ∧ Cleared s act

/-- At most one object has `_acquired` set. -/
def State.Exclusive (s : State ι) : Prop :=
  ∀ i j, (s.object i).acquired = true → (s.object j).acquired = true → i = j

theorem State.Exclusive.next (h : s.Exclusive) (hholding : s.Holding) (hleased : Leased ttl s)
    (hgood : Careful ttl s act) : (next ttl s act).Exclusive := by
  -- an object that is told of its lock owns the document, as a holder does
  have hnew : ∀ i j, act = .answer i → (∃ t, (s.object i).call = .answered t true) →
      (s.object j).acquired = true → i = j := by
    rintro i j rfl ⟨t, hcall⟩ hj
    obtain ⟨htime, -, hcleared⟩ := hgood
    have hnot : ∀ k, (s.object k).call ≠ .deleted := by
      simpa [Cleared, hcall, Call.won?] using hcleared
    exact (hleased.told hcall htime).unique ((hholding j hj).resolve_left (hnot j))
  intro i j hi hj
  obtain hi | ⟨hact, hi⟩ := acquired_next hi
  · obtain hj | ⟨hact', hj⟩ := acquired_next hj
    · exact h i j hi hj
    · exact (hnew j i hact' hj hi).symm
  · obtain hj | ⟨hact', hj⟩ := acquired_next hj
    · exact hnew i j hact hi hj
    · rw [hact] at hact'
      cases hact'
      rfl

def State.Safe (ttl : ι → Nat) (s : State ι) : Prop :=
  (Leased ttl s ∧ s.Holding) ∧ s.Exclusive

theorem safe_keeps : (locks ttl).Keeps (Careful ttl) (State.Safe ttl) := by
  have hholding : (locks ttl).Keeps (Careful ttl) fun s => Leased ttl s ∧ s.Holding :=
    (leased_keeps.mono fun _ _ hgood => hgood.1).and
      fun _ _ henabled hgood hleased h => h.next hleased henabled hgood.1 hgood.2.1
  exact hholding.and fun _ _ _ hgood hs h => h.next hs.2 hs.1 hgood

/-- No object has made a call yet; there may be a document. -/
def State.Fresh (s : State ι) : Prop := ∀ i, s.object i = {}

omit [DecidableEq ι] in
theorem State.Fresh.safe (h : s.Fresh) (ttl : ι → Nat) : s.Safe ttl := by
  refine ⟨⟨fun i => ?_, fun i hi => ?_⟩, fun i j hi => ?_⟩
  · rw [h i]
    exact ⟨by simp [Call.read?], by simp, by simp, by simp, by simp⟩
  · simp [h i] at hi
  · simp [h i] at hi

/-- A release of `i` leaves a document of another owner. -/
def State.Spares (s : State ι) : Prop :=
  ∀ i d, s.doc = some d → d.ownerId ≠ i → (deleteOne i s).doc = some d

theorem spares (s : State ι) : s.Spares := by
  intro i d hd hne
  simp [deleteOne, State.put, hd, hne]

/-- In every run in which every `acquire` returns in time, no flag outlives its
document, and a released flag is cleared before the next one is set, one object
holds the lock. -/
theorem lock_excludes (ttl : ι → Nat) {s : State ι} (hs : s.Fresh) {acts : List (Act ι)}
    (hrun : (locks ttl).Runs (Careful ttl) s acts) :
    ((locks ttl).after s acts).Exclusive ∧ ((locks ttl).after s acts).Spares :=
  ⟨(safe_keeps.after hrun (hs.safe ttl)).2, spares _⟩

/-- Whether the updates of the heartbeats of `i` are made. -/
def outcomes (i : ι) (acts : List (Act ι)) : List Bool :=
  acts.filterMap fun
    | .heartbeat j => if j = i then some true else none
    | .heartbeatFails j _ => if j = i then some false else none
    | _ => none

/-- No object has two failures in a row. -/
def NeverTwice (acts : List (Act ι)) : Prop :=
  ∀ i, (outcomes i acts).IsChain fun a b => a = true ∨ b = true

section TwoWorkers

instance (s : State ι) : ∀ act, Decidable (InTime ttl s act)
  | .answer i => inferInstanceAs (Decidable (∀ now ∈ (s.object i).call.won?, _ < _))
  | .acquire _ | .insert _ | .takeOver _ | .heartbeat _ | .heartbeatFails _ _ | .release _
  | .delete _ | .clear _ | .expire | .tick _ => inferInstanceAs (Decidable True)

instance (s : State ι) : ∀ act, Decidable (Renewed s act)
  | .tick d => inferInstanceAs (Decidable (∀ doc ∈ s.doc, _ → _ → s.now + d < doc.expiresAt))
  | .acquire _ | .insert _ | .takeOver _ | .answer _ | .heartbeat _ | .heartbeatFails _ _
  | .release _ | .delete _ | .clear _ | .expire => inferInstanceAs (Decidable True)

instance [Fintype ι] (s : State ι) : ∀ act, Decidable (Cleared s act)
  | .answer _ => inferInstanceAs (Decidable (_ → ∀ _, _ ≠ Call.deleted))
  | .acquire _ | .insert _ | .takeOver _ | .heartbeat _ | .heartbeatFails _ _ | .release _
  | .delete _ | .clear _ | .expire | .tick _ => inferInstanceAs (Decidable True)

instance [Fintype ι] (s : State ι) (act : Act ι) : Decidable (Careful ttl s act) :=
  inferInstanceAs (Decidable (_ ∧ _ ∧ _))

/-- Two objects with the default `ttl_seconds`, and no document. -/
def twoWorkers : State Bool := { now := 0, doc := none, object := fun _ => {} }

theorem twoWorkers_fresh : twoWorkers.Fresh := fun _ => rfl

/-- The first one's heartbeat fails; it releases in time, and the other one
gets the lock. -/
def failedAndReleased : List (Act Bool) :=
  [.acquire true, .insert true, .answer true, .tick 150000, .heartbeatFails true false,
    .tick 100000, .release true, .delete true, .clear true,
    .acquire false, .insert false, .answer false]

theorem failed_and_released_excludes :
    (locks fun _ => 300).Runs (Careful fun _ => 300) twoWorkers failedAndReleased ∧
    ((locks fun _ => 300).after twoWorkers failedAndReleased).Exclusive ∧
    ((locks fun _ => 300).after twoWorkers failedAndReleased).Spares :=
  have hrun : (locks fun _ => 300).Runs (Careful fun _ => 300) twoWorkers failedAndReleased := by
    decide +kernel
  ⟨hrun, lock_excludes (fun _ => 300) twoWorkers_fresh hrun⟩

/-- The first one's heartbeat fails, the document expires, and the other one
takes it over. -/
def failedAndKept : List (Act Bool) :=
  [.acquire true, .insert true, .answer true, .tick 150000, .heartbeatFails true false,
    .tick 150001, .acquire false, .insert false, .takeOver false, .answer false]

/-- Where an update may fail, but never two in a row, two objects hold the lock. -/
theorem failed_heartbeat_shares :
    ¬∀ (s : State Bool) (acts : List (Act Bool)), s.Fresh → NeverTwice acts →
      (locks fun _ => 300).Runs (fun s act => InTime (fun _ => 300) s act ∧ Cleared s act)
        s acts → ((locks fun _ => 300).after s acts).Exclusive := by
  intro hclaim
  have hrun : (locks fun _ => 300).Runs
      (fun s act => InTime (fun _ => 300) s act ∧ Cleared s act) twoWorkers failedAndKept := by
    decide +kernel
  have htwice : NeverTwice failedAndKept := by
    intro i
    cases i
    · simp [outcomes, failedAndKept]
    · simp [outcomes, failedAndKept]
  have hboth := hclaim twoWorkers failedAndKept twoWorkers_fresh htwice hrun true false
  revert hboth
  decide +kernel

end TwoWorkers

end Sentora.Locks
