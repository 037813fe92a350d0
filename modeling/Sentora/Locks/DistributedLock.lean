import Mathlib.Data.Fintype.Basic
import Sentora.Lib.Machine

/-!
# Distributed locks

The `DistributedLock` objects of one name, and the document of
`distributed_locks` with that name.  Each object makes one call at a time; what
the database does and what the object does with the answer are acts of their
own.  Times are the milliseconds that MongoDB stores, and an owner id is the
object that has made it up.
-/

namespace Sentora.Locks

open Lib

structure LockDoc (ι : Type) where
  ownerId : ι
  acquiredAt : Nat
  expiresAt : Nat
deriving DecidableEq

/-- Where the call of an object is; `now` is the time `acquire` has read. -/
inductive Call
  | idle
  | inserting (now : Nat)
  | takingOver (now : Nat)
  | answered (now : Nat) (won : Bool)
  | deleting
  | deleted
deriving DecidableEq

/-- The time that the `acquire` under way has read. -/
def Call.read? : Call → Option Nat
  | .inserting now | .takingOver now | .answered now _ => some now
  | _ => none

def Call.isInserting : Call → Bool
  | .inserting _ => true
  | _ => false

def Call.isTakingOver : Call → Bool
  | .takingOver _ => true
  | _ => false

def Call.isAnswered : Call → Bool
  | .answered _ _ => true
  | _ => false

/-- The time that an `acquire` has read which has won. -/
def Call.won? : Call → Option Nat
  | .answered now true => some now
  | _ => none

structure DistributedLock where
  call : Call := .idle
  acquired : Bool := false
  /-- When the running heartbeat task wakes up. -/
  heartbeatTask : Option Nat := none
  lost : Bool := false

structure State (ι : Type) where
  now : Nat
  doc : Option (LockDoc ι)
  object : ι → DistributedLock

variable {ι : Type}

def State.put [DecidableEq ι] (s : State ι) (i : ι) (o : DistributedLock) : State ι :=
  { s with object := Function.update s.object i o }

@[simp] theorem State.put_object_self [DecidableEq ι] (s : State ι) (i : ι) (o : DistributedLock) :
    (s.put i o).object i = o := Function.update_self ..

theorem State.put_object_of_ne [DecidableEq ι] {i j : ι} (h : j ≠ i) (s : State ι)
    (o : DistributedLock) : (s.put i o).object j = s.object j := Function.update_of_ne h ..

/-- `timedelta(seconds=…)`. -/
def seconds (n : Nat) : Nat := 1000 * n

def interval (ttlSeconds : Nat) : Nat := max 1 (ttlSeconds / 2)

section Steps

variable [DecidableEq ι] (ttl : ι → Nat)

def acquire (i : ι) (s : State ι) : State ι :=
  s.put i { s.object i with call := .inserting s.now }

/-- What `acquire` writes when it has read the time `now`. -/
def lockDoc (i : ι) (now : Nat) : LockDoc ι := ⟨i, now, now + seconds (ttl i)⟩

/-- `insert_one`: the name is the `_id` of the document. -/
def insertOne (i : ι) (now : Nat) (s : State ι) : State ι :=
  match s.doc with
  | none =>
    { s with doc := some (lockDoc ttl i now) }.put i { s.object i with call := .answered now true }
  | some _ => s.put i { s.object i with call := .takingOver now }

/-- `update_one` on a document that has expired at `now`. -/
def takeOver (i : ι) (now : Nat) (s : State ι) : State ι :=
  match s.doc.filter fun d => d.expiresAt < now with
  | some _ =>
    { s with doc := some (lockDoc ttl i now) }.put i { s.object i with call := .answered now true }
  | none => s.put i { s.object i with call := .answered now false }

/-- The result of `acquire`; its caller starts the heartbeat task. -/
def answer (i : ι) (won : Bool) (s : State ι) : State ι :=
  if won then
    s.put i { s.object i with
      call := .idle
      acquired := true
      heartbeatTask := some (s.now + seconds (interval (ttl i))) }
  else
    s.put i { s.object i with call := .idle }

/-- The `$set` of a heartbeat. -/
def refresh (i : ι) (s : State ι) : State ι :=
  { s with
    doc := s.doc.map fun d =>
      if d.ownerId = i then { d with expiresAt := s.now + seconds (ttl i) } else d }

def heartbeat (i : ι) (s : State ι) : State ι :=
  match s.doc.filter fun d => d.ownerId = i with
  | some _ =>
    (refresh ttl i s).put i { s.object i with
      heartbeatTask := some (s.now + seconds (interval (ttl i))) }
  | none =>
    s.put i { s.object i with acquired := false, heartbeatTask := none, lost := true }

/-- The update raises: the task ends with the exception, and nobody hears of it.
The database may have applied the update. -/
def heartbeatFails (i : ι) (applied : Bool) (s : State ι) : State ι :=
  (if applied then refresh ttl i s else s).put i { s.object i with heartbeatTask := none }

/-- The task is cancelled; there is something to delete only for a holder. -/
def release (i : ι) (s : State ι) : State ι :=
  s.put i { s.object i with
    heartbeatTask := none
    call := if (s.object i).acquired then .deleting else .idle }

/-- `delete_one` on the document of this owner. -/
def deleteOne (i : ι) (s : State ι) : State ι :=
  { s with doc := s.doc.filter fun d => d.ownerId ≠ i }.put i { s.object i with call := .deleted }

def clear (i : ι) (s : State ι) : State ι :=
  s.put i { s.object i with call := .idle, acquired := false }

inductive Act (ι : Type)
  | acquire (i : ι)
  | insert (i : ι)
  | takeOver (i : ι)
  | answer (i : ι)
  | heartbeat (i : ι)
  | heartbeatFails (i : ι) (applied : Bool)
  | release (i : ι)
  | delete (i : ι)
  | clear (i : ι)
  | expire
  | tick (d : Nat)

def next (s : State ι) : Act ι → State ι
  | .acquire i => acquire i s
  | .insert i =>
    match (s.object i).call with
    | .inserting now => insertOne ttl i now s
    | _ => s
  | .takeOver i =>
    match (s.object i).call with
    | .takingOver now => takeOver ttl i now s
    | _ => s
  | .answer i =>
    match (s.object i).call with
    | .answered _ won => answer ttl i won s
    | _ => s
  | .heartbeat i => heartbeat ttl i s
  | .heartbeatFails i applied => heartbeatFails ttl i applied s
  | .release i => release i s
  | .delete i => deleteOne i s
  | .clear i => clear i s
  -- the TTL index has `expireAfterSeconds=0`
  | .expire => { s with doc := s.doc.filter fun d => s.now < d.expiresAt }
  | .tick d => { s with now := s.now + d }

/-- Calls come one after the other, and no heartbeat is late. -/
def Enabled (s : State ι) : Act ι → Prop
  | .acquire i | .release i => (s.object i).call = .idle
  | .insert i => (s.object i).call.isInserting
  | .takeOver i => (s.object i).call.isTakingOver
  | .answer i => (s.object i).call.isAnswered
  | .heartbeat i | .heartbeatFails i _ => (s.object i).heartbeatTask = some s.now
  | .delete i => (s.object i).call = .deleting
  | .clear i => (s.object i).call = .deleted
  | .expire => True
  | .tick d => ∀ i, ∀ due ∈ (s.object i).heartbeatTask, s.now + d ≤ due

instance [Fintype ι] (s : State ι) : ∀ act, Decidable (Enabled s act)
  | .acquire i | .release i => inferInstanceAs (Decidable ((s.object i).call = .idle))
  | .insert i => inferInstanceAs (Decidable ((s.object i).call.isInserting = true))
  | .takeOver i => inferInstanceAs (Decidable ((s.object i).call.isTakingOver = true))
  | .answer i => inferInstanceAs (Decidable ((s.object i).call.isAnswered = true))
  | .heartbeat i | .heartbeatFails i _ =>
    inferInstanceAs (Decidable ((s.object i).heartbeatTask = some s.now))
  | .delete i => inferInstanceAs (Decidable ((s.object i).call = .deleting))
  | .clear i => inferInstanceAs (Decidable ((s.object i).call = .deleted))
  | .expire => inferInstanceAs (Decidable True)
  | .tick d =>
    inferInstanceAs (Decidable (∀ i, ∀ due ∈ (s.object i).heartbeatTask, s.now + d ≤ due))

def Act.subject? : Act ι → Option ι
  | .acquire i | .insert i | .takeOver i | .answer i | .heartbeat i | .heartbeatFails i _
  | .release i | .delete i | .clear i => some i
  | .expire | .tick _ => none

theorem next_object {s : State ι} {act : Act ι} {i : ι} (h : act.subject? ≠ some i) :
    (next ttl s act).object i = s.object i := by
  have hne : ∀ j, act.subject? = some j → i ≠ j := by
    rintro j hj rfl
    exact h hj
  cases act with
  | expire | tick _ => rfl
  | acquire j | release j | delete j | clear j => exact State.put_object_of_ne (hne j rfl) ..
  | insert j =>
    simp only [next, insertOne]
    split <;> try split
    all_goals first | rfl | exact State.put_object_of_ne (hne j rfl) ..
  | takeOver j =>
    simp only [next, takeOver]
    split <;> try split
    all_goals first | rfl | exact State.put_object_of_ne (hne j rfl) ..
  | answer j =>
    simp only [next, answer]
    split <;> try split
    all_goals first | rfl | exact State.put_object_of_ne (hne j rfl) ..
  | heartbeat j =>
    simp only [next, heartbeat]
    split <;> exact State.put_object_of_ne (hne j rfl) ..
  | heartbeatFails j applied =>
    cases applied <;> exact State.put_object_of_ne (hne j rfl) ..

def locks : Machine (State ι) (Act ι) := ⟨Enabled, next ttl⟩

instance [Fintype ι] (s : State ι) (act : Act ι) : Decidable ((locks ttl).Enabled s act) :=
  inferInstanceAs (Decidable (Enabled s act))

end Steps

/-! ## Leases

A document whose owner runs its heartbeat task does not expire before the task
wakes up.
-/

section Leases

variable (ttl : ι → Nat)

/-- What an object relies on, at the time `now`. -/
structure Sound (now : Nat) (doc : Option (LockDoc ι)) (i : ι) (o : DistributedLock) : Prop where
  reading : ∀ t, o.call.read? = some t → t ≤ now
  beating : ∀ due, o.heartbeatTask = some due →
    now ≤ due ∧ ∃ d, doc = some d ∧ d.ownerId = i ∧ due < d.expiresAt
  margin : o.heartbeatTask ≠ none → interval (ttl i) < ttl i
  won : ∀ t, o.call = .answered t true →
    o.heartbeatTask = none ∧ (doc = some (lockDoc ttl i t) ∨ t + seconds (ttl i) ≤ now)
  releasing : o.call = .deleting ∨ o.call = .deleted → o.heartbeatTask = none

def Leased (s : State ι) : Prop := ∀ i, Sound ttl s.now s.doc i (s.object i)

/-- An `acquire` that has won returns in time for its first heartbeat. -/
def InTime (s : State ι) : Act ι → Prop
  | .answer i => ∀ now ∈ (s.object i).call.won?,
      s.now + seconds (interval (ttl i)) < now + seconds (ttl i)
  | _ => True

variable {ttl} {s : State ι} {i : ι} {o : DistributedLock} {now : Nat}
  {doc doc' : Option (LockDoc ι)}
variable {d : LockDoc ι} {t : Nat}

/-- A live document that stays as it is is all that an object relies on. -/
theorem Sound.other (h : Sound ttl now doc i o)
    (hdoc : ∀ d, doc = some d → d.ownerId = i → now < d.expiresAt → doc' = some d) :
    Sound ttl now doc' i o where
  reading := h.reading
  beating := by
    intro due hdue
    obtain ⟨hnow, d, hd, howner, hlt⟩ := h.beating due hdue
    exact ⟨hnow, d, hdoc d hd howner (by omega), howner, hlt⟩
  margin := h.margin
  won := by
    intro t ht
    obtain ⟨htask, hd | hlate⟩ := h.won t ht
    · refine ⟨htask, ?_⟩
      by_cases hlive : now < t + seconds (ttl i)
      · exact .inl (hdoc _ hd rfl hlive)
      · exact .inr (by omega)
    · exact ⟨htask, .inr hlate⟩
  releasing := h.releasing

theorem Leased.noTask (h : Leased ttl s) (hdoc : ∀ d, s.doc = some d → d.expiresAt ≤ s.now) :
    (s.object i).heartbeatTask = none := by
  rw [Option.eq_none_iff_forall_ne_some]
  intro due hdue
  obtain ⟨hnow, d, hd, -, hlt⟩ := (h i).beating due hdue
  have := hdoc d hd
  omega

theorem Leased.owner (h : Leased ttl s) (hdue : (s.object i).heartbeatTask = some s.now) :
    ∃ d, s.doc = some d ∧ d.ownerId = i ∧ s.now < d.expiresAt := by
  obtain ⟨-, d, hd, howner, hlt⟩ := (h i).beating s.now hdue
  exact ⟨d, hd, howner, hlt⟩

theorem Leased.notWon (h : Leased ttl s) (htask : (s.object i).heartbeatTask ≠ none) (t : Nat) :
    (s.object i).call ≠ .answered t true := by
  intro hcall
  exact htask ((h i).won t hcall).1

theorem Leased.expire (h : Leased ttl s) :
    Leased ttl { s with doc := s.doc.filter fun d => s.now < d.expiresAt } := by
  intro i
  refine (h i).other fun d hd _ hlive => ?_
  simp [hd, hlive]

theorem Leased.tick (h : Leased ttl s) {d : Nat} (hd : Enabled s (.tick d)) :
    Leased ttl { s with now := s.now + d } := by
  intro i
  refine ⟨fun t ht => ?_, fun due hdue => ?_, (h i).margin, fun t ht => ?_, (h i).releasing⟩
  · exact Nat.le_add_right_of_le ((h i).reading t ht)
  · obtain ⟨-, howner⟩ := (h i).beating due hdue
    exact ⟨hd i due hdue, howner⟩
  · obtain ⟨htask, hdoc⟩ := (h i).won t ht
    exact ⟨htask, hdoc.imp_right Nat.le_add_right_of_le⟩

variable [DecidableEq ι]

theorem Leased.put (h : Leased ttl s)
    (hdoc : ∀ d, s.doc = some d → d.ownerId ≠ i → s.now < d.expiresAt → doc = some d)
    (hi : Sound ttl s.now doc i o) : Leased ttl ({ s with doc := doc }.put i o) := by
  intro j
  by_cases hj : j = i
  · subst hj
    simpa [State.put] using hi
  · have hother : Sound ttl s.now doc j (s.object j) :=
      (h j).other fun d hd howner => hdoc d hd (by rwa [howner])
    simpa [State.put, hj] using hother

theorem Leased.acquire (h : Leased ttl s) : Leased ttl (acquire i s) := by
  refine h.put (fun d hd _ _ => hd) ⟨?_, (h i).beating, (h i).margin, by simp, by simp⟩
  intro t ht
  simp only [Call.read?, Option.some.injEq] at ht
  omega

theorem Leased.written (h : Leased ttl s)
    (hdoc : ∀ d, s.doc = some d → d.expiresAt ≤ s.now)
    (ht : (s.object i).call.read? = some t) :
    Leased ttl ({ s with doc := some (lockDoc ttl i t) }.put i
      { s.object i with call := .answered t true }) := by
  have htask := h.noTask (i := i) hdoc
  refine h.put (fun d hd _ hlive => ?_) ⟨?_, ?_, (h i).margin, ?_, by simp⟩
  · have := hdoc d hd
    omega
  · intro t' ht'
    simp only [Call.read?, Option.some.injEq] at ht'
    exact (h i).reading t' (ht' ▸ ht)
  · intro due hdue
    simp [htask] at hdue
  · intro t' ht'
    simp only [Call.answered.injEq, and_true] at ht'
    exact ⟨htask, .inl (by rw [ht'])⟩

theorem Leased.unwritten (h : Leased ttl s) {c : Call}
    (hread : c.read? = none ∨ c.read? = (s.object i).call.read?)
    (hwon : ∀ t, c ≠ .answered t true) (hrelease : c ≠ .deleting ∧ c ≠ .deleted) :
    Leased ttl (s.put i { s.object i with call := c }) := by
  refine h.put (fun d hd _ _ => hd) ⟨?_, (h i).beating, (h i).margin, ?_, ?_⟩
  · intro t ht
    obtain hnone | hread := hread
    · simp [hnone] at ht
    · exact (h i).reading t (hread ▸ ht)
  · intro t ht
    exact absurd ht (hwon t)
  · rintro (hr | hr)
    · exact absurd hr hrelease.1
    · exact absurd hr hrelease.2

theorem Leased.insertOne (h : Leased ttl s) (hcall : (s.object i).call = .inserting t) :
    Leased ttl (insertOne ttl i t s) := by
  unfold Locks.insertOne
  split
  case h_1 hdoc => exact h.written (by simp [hdoc]) (by rw [hcall]; rfl)
  case h_2 => exact h.unwritten (.inr (by rw [hcall]; rfl)) (by simp) (by simp)

theorem Leased.takeOver (h : Leased ttl s) (hcall : (s.object i).call = .takingOver t) :
    Leased ttl (takeOver ttl i t s) := by
  have ht : t ≤ s.now := (h i).reading t (by rw [hcall]; rfl)
  unfold Locks.takeOver
  split
  case h_1 d hd =>
    refine h.written (fun d' hd' => ?_) (by rw [hcall]; rfl)
    obtain ⟨hd, hlt⟩ := Option.filter_eq_some_iff.1 hd
    rw [hd', Option.some.injEq] at hd
    subst hd
    have := of_decide_eq_true hlt
    omega
  case h_2 => exact h.unwritten (.inr (by rw [hcall]; rfl)) (by simp) (by simp)

theorem Leased.answer (h : Leased ttl s) {won : Bool}
    (hcall : (s.object i).call = .answered t won) (htime : InTime ttl s (.answer i)) :
    Leased ttl (answer ttl i won s) := by
  cases won with
  | false => exact h.unwritten (.inl rfl) (by simp) (by simp)
  | true =>
    have hlt : s.now + seconds (interval (ttl i)) < t + seconds (ttl i) := by
      simpa [InTime, hcall, Call.won?] using htime
    have ht : t ≤ s.now := (h i).reading t (by rw [hcall]; rfl)
    refine h.put (fun d hd _ _ => hd) ⟨by simp [Call.read?], ?_, ?_, by simp, by simp⟩
    · intro due hdue
      have hdue' : s.now + seconds (interval (ttl i)) = due := by simpa using hdue
      obtain ⟨-, hd | hlate⟩ := (h i).won t hcall
      · exact ⟨by omega, _, hd, rfl, by simp only [lockDoc]; omega⟩
      · omega
    · intro _
      simp only [seconds] at hlt
      omega

theorem refresh_doc (hd : s.doc = some d) (howner : d.ownerId = i) :
    (refresh ttl i s).doc = some { d with expiresAt := s.now + seconds (ttl i) } := by
  simp [refresh, hd, howner]

theorem refresh_doc_other (hd : s.doc = some d) (hne : d.ownerId ≠ i) :
    (refresh ttl i s).doc = some d := by
  simp [refresh, hd, hne]

theorem heartbeat_of_owner (hd : s.doc = some d) (howner : d.ownerId = i) :
    heartbeat ttl i s = (refresh ttl i s).put i { s.object i with
      heartbeatTask := some (s.now + seconds (interval (ttl i))) } := by
  have hfind : (s.doc.filter fun d => d.ownerId = i) = some d := by
    rw [hd, Option.filter_eq_some_iff]
    exact ⟨rfl, decide_eq_true howner⟩
  rw [heartbeat, hfind]

theorem Leased.heartbeat (h : Leased ttl s) (hdue : (s.object i).heartbeatTask = some s.now) :
    Leased ttl (heartbeat ttl i s) := by
  obtain ⟨d, hd, howner, -⟩ := h.owner hdue
  have hsome : (s.object i).heartbeatTask ≠ none := by simp [hdue]
  have hmargin := (h i).margin hsome
  rw [heartbeat_of_owner hd howner]
  refine h.put (fun d' hd' hne _ => refresh_doc_other hd' hne)
    ⟨(h i).reading, ?_, fun _ => hmargin, ?_, ?_⟩
  · intro due hdue'
    have hdue' : s.now + seconds (interval (ttl i)) = due := by simpa using hdue'
    refine ⟨by omega, _, refresh_doc hd howner, howner, ?_⟩
    simp only [seconds] at hdue' ⊢
    omega
  · intro t ht
    exact absurd ht (h.notWon hsome t)
  · intro hr
    exact absurd ((h i).releasing hr) hsome

theorem Leased.heartbeatFails (h : Leased ttl s) (applied : Bool)
    (hdue : (s.object i).heartbeatTask = some s.now) :
    Leased ttl (heartbeatFails ttl i applied s) := by
  have hsome : (s.object i).heartbeatTask ≠ none := by simp [hdue]
  have hi : ∀ doc', Sound ttl s.now doc' i { s.object i with heartbeatTask := none } := fun doc' =>
    ⟨(h i).reading, by simp, by simp, fun t ht => absurd ht (h.notWon hsome t), fun _ => rfl⟩
  cases applied with
  | false => exact h.put (fun d hd _ _ => hd) (hi s.doc)
  | true => exact h.put (fun d hd hne _ => refresh_doc_other hd hne) (hi _)

theorem Leased.release (h : Leased ttl s) : Leased ttl (release i s) := by
  refine h.put (fun d hd _ _ => hd) ⟨?_, by simp, by simp, ?_, fun _ => rfl⟩
  · cases (s.object i).acquired <;> simp [Call.read?]
  · cases (s.object i).acquired <;> simp

theorem Leased.deleteOne (h : Leased ttl s) (htask : (s.object i).heartbeatTask = none) :
    Leased ttl (deleteOne i s) := by
  refine h.put (fun d hd hne _ => ?_) ⟨by simp [Call.read?], ?_, (h i).margin, by simp,
    fun _ => htask⟩
  · simp [hd, hne]
  · intro due hdue
    simp [htask] at hdue

theorem Leased.clear (h : Leased ttl s) : Leased ttl (clear i s) :=
  h.put (fun d hd _ _ => hd)
    ⟨by simp [Call.read?], (h i).beating, (h i).margin, by simp, by simp⟩

theorem leased_keeps : (locks ttl).Keeps (InTime ttl) (Leased ttl) := by
  intro s act henabled htime h
  cases act with
  | acquire i => exact h.acquire
  | insert i =>
    simp only [locks, next]
    split
    case h_1 hcall => exact h.insertOne hcall
    case h_2 => exact h
  | takeOver i =>
    simp only [locks, next]
    split
    case h_1 hcall => exact h.takeOver hcall
    case h_2 => exact h
  | answer i =>
    simp only [locks, next]
    split
    case h_1 hcall => exact h.answer hcall htime
    case h_2 => exact h
  | heartbeat i => exact h.heartbeat henabled
  | heartbeatFails i applied => exact h.heartbeatFails applied henabled
  | release i => exact h.release
  | delete i => exact h.deleteOne ((h i).releasing (.inl henabled))
  | clear i => exact h.clear
  | expire => exact h.expire
  | tick d => exact h.tick henabled

end Leases

end Sentora.Locks
