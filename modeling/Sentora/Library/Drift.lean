import Sentora.Lib.CutOff
import Sentora.Library.Service

/-!
# Subscriptions, copies and counters

What subscriptions, unsubscriptions and deletions of entries leave behind when their
calls of the database interleave and any of them may be cut off.

The counter of an entry and its stored subscriptions agree once the increments that
are under way are counted in, unless the entry is about to be deleted.  A call that is
cut off before its increment, or that deletes a subscription which is gone, breaks
this.  The copies in a group have a subscription unless they are written after it was
deleted, or it is deleted before them.
-/

namespace Sentora.Library.Drift

open Lib Process

inductive Call where
  | subscribe (r : SubscribeRequest)
  | unsubscribe (entryId groupId : String)
  | deleteEntry (entryId : String)
deriving DecidableEq

def program : Call → Process LibraryStore LibraryOp (Except LibraryFailure Unit)
  | .subscribe r => (subscribe r).run >>= fun result => .ret (result.map fun _ => ())
  | .unsubscribe entryId groupId => (unsubscribe entryId groupId).run
  | .deleteEntry entryId => (deleteEntry entryId).run

abbrev CallPool (n : Nat) :=
    Pool (Fin n) LibraryStore LibraryOp (fun _ => Except LibraryFailure Unit)

def callPool {n : Nat} (calls : Fin n → Call) (s : LibraryStore) : CallPool n :=
  ⟨s, fun i => program (calls i)⟩

def subscriptionCount (entryId : String) (s : LibraryStore) : Nat :=
  s.subscriptions.docs.countP fun sub => sub.libraryEntryId == entryId

structure Accounted (s : LibraryStore) : Prop where
  subscribed : ∀ groupId entryId, ∀ m ∈ markersOf groupId s, m.addedBy = some (provenance entryId) →
    ∃ sub ∈ s.subscriptions, sub.groupId = groupId ∧ sub.libraryEntryId = entryId
  single : ∀ sub ∈ s.subscriptions, ∀ sub' ∈ s.subscriptions, sub.groupId = sub'.groupId →
    sub.libraryEntryId = sub'.libraryEntryId → sub = sub'
  counted : ∀ e ∈ s.entries, e.subscriberCount = subscriptionCount e.id s

/-- What a call adds to the entry's counter in its next step. -/
def owes (entryId : String) : LibraryOp → Int
  | .incrementSubscriberCount entryId' delta => if entryId' = entryId then delta else 0
  | _ => 0

def DeletedBy {n : Nat} (c : CallPool n) (entryId : String) (i : Fin n) : Prop :=
  (c.procs i).next? = some (.deleteEntry entryId)

def Excused {n : Nat} (c : CallPool n) (entryId : String) : Prop :=
  getEntry entryId c.state = none ∨ ∃ i, DeletedBy c entryId i

/-- Markers are written for a stored subscription; a subscription is deleted when its
markers are gone, and if it is gone itself the counter does not matter any more. -/
def SafeStep {n : Nat} (c : CallPool n) : LibraryOp → Prop
  | .copyMarkers entry groupId => (groupId, entry.id) ∈ pairs c.state
  | .deleteSubscription sub =>
    (∃ d ∈ c.state.subscriptions.docs, d.id = sub.id ∧ d.pair = sub.pair ∧
      copies d.groupId d.libraryEntryId c.state = []) ∨
    ((∀ d ∈ c.state.subscriptions.docs, d.id ≠ sub.id) ∧ Excused c sub.libraryEntryId)
  | .deleteSubscriptionsByEntry entryId => ∀ d ∈ c.state.subscriptions.docs,
    d.libraryEntryId = entryId → copies d.groupId d.libraryEntryId c.state = []
  | _ => True

/-- The counter of the entry is right once what is owed has been added. -/
def Balanced {n : Nat} (c : CallPool n) (entryId : String) : Prop :=
  ∀ e, getEntry entryId c.state = some e →
    e.subscriberCount + c.owing (owes entryId) = subscriptionCount entryId c.state

/-- No call is cut off before it counts, or between the two steps of a deletion that
leaves a wrong counter. -/
def SafeCut {n : Nat} (c : CallPool n) (i : Fin n) : LibraryOp → Prop
  | .incrementSubscriberCount entryId _ => Excused c entryId
  | .deleteEntry entryId => (∃ j, j ≠ i ∧ DeletedBy c entryId j) ∨ Balanced c entryId
  | _ => True

def Safe {n : Nat} (c : CallPool n) : Pool.Event (Fin n) → Prop
  | .turn i => ∀ l, (c.procs i).next? = some l → SafeStep c l
  | .cut i => ∀ l, (c.procs i).next? = some l → SafeCut c i l

section Deciding

variable {n : Nat} (c : CallPool n) (entryId : String) (i : Fin n)

instance : Decidable (DeletedBy c entryId i) :=
  inferInstanceAs (Decidable ((c.procs i).next? = some (.deleteEntry entryId)))

instance : Decidable (Excused c entryId) :=
  inferInstanceAs (Decidable (getEntry entryId c.state = none ∨ ∃ i, DeletedBy c entryId i))

instance : Decidable (Balanced c entryId) :=
  inferInstanceAs (Decidable (∀ e ∈ getEntry entryId c.state,
    e.subscriberCount + c.owing (owes entryId) = subscriptionCount entryId c.state))

instance SafeStep.decidable : ∀ l, Decidable (SafeStep c l)
  | .copyMarkers entry groupId =>
    inferInstanceAs (Decidable ((groupId, entry.id) ∈ pairs c.state))
  | .deleteSubscription sub =>
    inferInstanceAs (Decidable
      ((∃ d ∈ c.state.subscriptions.docs, d.id = sub.id ∧ d.pair = sub.pair ∧
        copies d.groupId d.libraryEntryId c.state = []) ∨
      ((∀ d ∈ c.state.subscriptions.docs, d.id ≠ sub.id) ∧ Excused c sub.libraryEntryId)))
  | .deleteSubscriptionsByEntry entryId =>
    inferInstanceAs (Decidable (∀ d ∈ c.state.subscriptions.docs,
      d.libraryEntryId = entryId → copies d.groupId d.libraryEntryId c.state = []))
  | .getEntry _ | .getEntriesByIds _ | .updateEntry _ _ | .deleteEntry _
  | .incrementSubscriberCount _ _ | .getSubscription _ _ | .listAutoUpdateSubscriptions
  | .insertSubscription _ | .updateSubscription _ _ | .pullMarkers _ _ => isTrue trivial

instance SafeCut.decidable : ∀ l, Decidable (SafeCut c i l)
  | .incrementSubscriberCount entryId _ => inferInstanceAs (Decidable (Excused c entryId))
  | .deleteEntry entryId =>
    inferInstanceAs (Decidable ((∃ j, j ≠ i ∧ DeletedBy c entryId j) ∨ Balanced c entryId))
  | .getEntry _ | .getEntriesByIds _ | .updateEntry _ _ | .getSubscription _ _
  | .listAutoUpdateSubscriptions | .insertSubscription _ | .updateSubscription _ _
  | .deleteSubscription _ | .deleteSubscriptionsByEntry _ | .copyMarkers _ _
  | .pullMarkers _ _ => isTrue trivial

instance Safe.decidable : ∀ event, Decidable (Safe c event)
  | .turn i => inferInstanceAs (Decidable (∀ l ∈ (c.procs i).next?, SafeStep c l))
  | .cut i => inferInstanceAs (Decidable (∀ l ∈ (c.procs i).next?, SafeCut c i l))

end Deciding

def effect : LibraryOp → LibraryStore → LibraryStore
  | .updateEntry entryId r, s => (updateEntryDoc entryId r s).1
  | .deleteEntry entryId, s => (deleteEntryDoc entryId s).1
  | .incrementSubscriberCount entryId delta, s => incrementSubscriberCount entryId delta s
  | .insertSubscription sub, s => (insertSubscription sub s).1
  | .updateSubscription subId syncedVersion, s => updateSubscription subId syncedVersion s
  | .deleteSubscription sub, s => deleteSubscription sub.id s
  | .deleteSubscriptionsByEntry entryId, s => deleteSubscriptionsByEntry entryId s
  | .copyMarkers entry groupId, s => copyMarkers entry groupId s
  | .pullMarkers entryId groupId, s => pullMarkers entryId groupId s
  | _, s => s

def owed (entryId : String) (s : LibraryStore) : LibraryOp → Int
  | .insertSubscription sub =>
    if (insertSubscription sub s).2 = true ∧ sub.libraryEntryId = entryId then 1 else 0
  | .deleteSubscription sub => if sub.libraryEntryId = entryId then -1 else 0
  | _ => 0

def Lawful {α : Type} : Process LibraryStore LibraryOp α → Prop
  | .ret _ => True
  | .step l u k => ∀ s, u s = effect l s ∧
      (∀ entryId, (k s).next?.elim 0 (owes entryId) = owed entryId s l) ∧
      ∀ entryId, l = .deleteSubscriptionsByEntry entryId →
        (k s).next? = some (.deleteEntry entryId)

section Lawful

variable {α β : Type}

theorem next?_bind_ret (p : Process LibraryStore LibraryOp α) (g : α → β) :
    (p >>= fun a => .ret (g a)).next? = p.next? := by
  cases p with
  | ret a => rfl
  | step l u k => rfl

theorem always_lawful_bind_ret {p : Process LibraryStore LibraryOp α} (h : Always Lawful p)
    (g : α → β) : Always Lawful (p >>= fun a => .ret (g a)) := by
  induction p with
  | ret a => trivial
  | step l u k ih =>
    refine ⟨fun s => ?_, fun s => ih s (h.2 s)⟩
    show u s = _ ∧ (∀ entryId, (k s >>= fun a => .ret (g a)).next?.elim 0 _ = _) ∧
      ∀ entryId, _ → (k s >>= fun a => .ret (g a)).next? = _
    rw [next?_bind_ret]
    exact h.1 s

theorem always_lawful_call {op : LibraryOp} {f : LibraryStore → LibraryStore × α}
    {k : α → LibraryM β} (heffect : ∀ s, (f s).1 = effect op s)
    (howes : ∀ s entryId, (k (f s).2).run.next?.elim 0 (owes entryId) = owed entryId s op)
    (hdelete : ∀ s entryId, op = .deleteSubscriptionsByEntry entryId →
      (k (f s).2).run.next? = some (.deleteEntry entryId))
    (hrest : ∀ s, Always Lawful (k (f s).2).run) : Always Lawful (call op f >>= k).run :=
  ⟨fun s => ⟨heffect s, howes s, hdelete s⟩, hrest⟩

theorem always_lawful_unsubscribe (entryId groupId : String) :
    Always Lawful (unsubscribe entryId groupId).run := by
  refine always_lawful_call (fun s => rfl) (fun s x => ?_) (fun s x h => by cases h) fun s => ?_
  · cases getSubscriptionByGroupEntry groupId entryId s with
    | none => rfl
    | some sub => rfl
  · cases hsub : getSubscriptionByGroupEntry groupId entryId s with
    | none => trivial
    | some sub =>
      have hpair : sub.libraryEntryId = entryId :=
        (Prod.mk.inj (Indexed.getBy_eq_some_iff.mp hsub).2).2
      refine always_lawful_call (fun s => rfl) (fun s x => rfl) (fun s x h => by cases h)
        fun s => ?_
      refine always_lawful_call (fun s => rfl) (fun s x => ?_) (fun s x h => by cases h) fun s => ?_
      · show (if entryId = x then (-1 : Int) else 0) = if sub.libraryEntryId = x then -1 else 0
        rw [hpair]
      · exact ⟨fun s => ⟨rfl, fun x => rfl, fun x h => by cases h⟩, fun s => trivial⟩

theorem always_lawful_deleteEntry (entryId : String) :
    Always Lawful (deleteEntry entryId).run := by
  refine always_lawful_call (fun s => rfl) (fun s x => rfl) (fun s x h => ?_) fun s => ?_
  · cases h
    rfl
  · refine always_lawful_call (fun s => rfl) (fun s x => ?_) (fun s x h => by cases h) fun s => ?_
    · cases (deleteEntryDoc entryId s).2 with
      | false => rfl
      | true => rfl
    · cases (deleteEntryDoc entryId s).2 with
      | false => trivial
      | true => trivial

theorem always_lawful_subscribe (r : SubscribeRequest) : Always Lawful (subscribe r).run := by
  refine always_lawful_call (fun s => rfl) (fun s x => ?_) (fun s x h => by cases h) fun s => ?_
  · cases getEntry r.entryId s with
    | none => rfl
    | some entry => rfl
  cases getEntry r.entryId s with
  | none => trivial
  | some entry =>
    refine always_lawful_call (fun s => rfl) (fun s x => ?_) (fun s x h => by cases h) fun s => ?_
    · cases getSubscriptionByGroupEntry r.groupId r.entryId s with
      | none => rfl
      | some sub => rfl
    cases getSubscriptionByGroupEntry r.groupId r.entryId s with
    | some sub => trivial
    | none =>
      refine always_lawful_call (fun s => rfl) (fun s x => ?_) (fun s x h => by cases h) fun s => ?_
      · cases hinserted : (insertSubscription (newSubscription r) s).2 with
        | false =>
          simp only [owed, hinserted]
          rfl
        | true =>
          simp only [owed, hinserted, true_and]
          rfl
      cases (insertSubscription (newSubscription r) s).2 with
      | false => trivial
      | true =>
        refine always_lawful_call (fun s => rfl) (fun s x => ?_) (fun s x h => by cases h)
          fun s => ?_
        · unfold syncMarkersToGroup
          split
          · rfl
          · rfl
        unfold syncMarkersToGroup
        split
        · exact ⟨fun s => ⟨rfl, fun x => rfl, fun x h => by cases h⟩, fun s => trivial⟩
        · exact ⟨fun s => ⟨rfl, fun x => rfl, fun x h => by cases h⟩,
            fun s => ⟨fun s => ⟨rfl, fun x => rfl, fun x h => by cases h⟩, fun s => trivial⟩⟩

theorem always_lawful_program (call : Call) : Always Lawful (program call) := by
  cases call with
  | subscribe r => exact always_lawful_bind_ret (always_lawful_subscribe r) _
  | unsubscribe entryId groupId => exact always_lawful_unsubscribe entryId groupId
  | deleteEntry entryId => exact always_lawful_deleteEntry entryId

end Lawful

section Counters

variable {s : LibraryStore} {x : String} {e' : LibraryEntry}

theorem subscriptionCount_insert {sub : LibrarySubscription} (x : String)
    (h : (insertSubscription sub s).2 = true) :
    subscriptionCount x (insertSubscription sub s).1 =
      subscriptionCount x s + if sub.libraryEntryId = x then 1 else 0 := by
  unfold insertSubscription at h ⊢
  cases hinsert : s.subscriptions.insertOne sub with
  | none =>
    rw [hinsert] at h
    cases h
  | some subscriptions =>
    show subscriptions.docs.countP _ = s.subscriptions.docs.countP _ + _
    rw [Indexed.docs_insertOne hinsert, List.countP_append, List.countP_singleton]
    simp only [beq_iff_eq]

theorem subscriptionCount_update (x subId : String) (version : Int) (s : LibraryStore) :
    subscriptionCount x (updateSubscription subId version s) = subscriptionCount x s := by
  have hcount : ∀ t : LibraryStore, subscriptionCount x t =
      (t.subscriptions.docs.map LibrarySubscription.libraryEntryId).countP (· == x) := by
    intro t
    rw [List.countP_map]
    rfl
  rw [hcount, hcount, map_updateSubscription version fun _ => rfl]

theorem subscriptionCount_delete {d : LibrarySubscription} (x : String) (hd : d ∈ s.subscriptions) :
    subscriptionCount x (deleteSubscription d.id s) + (if d.libraryEntryId = x then 1 else 0) =
      subscriptionCount x s := by
  have hcount := Collection.countP_deleteMany_key (c := s.subscriptions.toCollection)
    (p := fun sub => sub.libraryEntryId == x) hd
  simp only [beq_iff_eq] at hcount
  exact hcount

theorem subscriptionCount_delete_none {subId : String} (x : String)
    (hnone : ∀ d ∈ s.subscriptions.docs, d.id ≠ subId) :
    subscriptionCount x (deleteSubscription subId s) = subscriptionCount x s := by
  show (s.subscriptions.docs.filter _).countP _ = _
  rw [List.filter_eq_self.mpr]
  · rfl
  · intro d hd
    simpa using hnone d hd

theorem subscriptionCount_deleteByEntry {y : String} (hne : y ≠ x) :
    subscriptionCount x (deleteSubscriptionsByEntry y s) = subscriptionCount x s := by
  show (s.subscriptions.docs.filter _).countP _ = s.subscriptions.docs.countP _
  rw [List.countP_filter]
  refine List.countP_congr fun d _ => ?_
  simp only [Bool.and_eq_true, beq_iff_eq, Bool.not_eq_true', beq_eq_false_iff_ne]
  constructor
  · exact fun h => h.1
  · intro h
    exact ⟨h, fun hy => hne (hy.symm.trans h)⟩

def Hits (s : LibraryStore) (x : String) (l : LibraryOp) : Prop :=
  ∀ sub, l = .deleteSubscription sub →
    (∃ d ∈ s.subscriptions.docs, d.id = sub.id ∧ d.libraryEntryId = sub.libraryEntryId) ∨
      ((∀ d ∈ s.subscriptions.docs, d.id ≠ sub.id) ∧ sub.libraryEntryId ≠ x)

theorem account_effect {l : LibraryOp} (he' : getEntry x (effect l s) = some e')
    (hl : l ≠ .deleteSubscriptionsByEntry x) (hhits : Hits s x l) :
    ∃ e, getEntry x s = some e ∧
      e'.subscriberCount + owed x s l + subscriptionCount x s =
        e.subscriberCount + owes x l + subscriptionCount x (effect l s) := by
  cases l with
  | updateEntry entryId r =>
    have hget : getEntry x (updateEntryDoc entryId r s).1 =
        (getEntry x s).map fun e => if e.id == entryId then r.apply e else e :=
      getEntry_modifyEntry
    obtain ⟨e, he, rfl⟩ := Option.map_eq_some_iff.mp (hget.symm.trans he')
    refine ⟨e, he, ?_⟩
    split
    · rfl
    · rfl
  | deleteEntry entryId =>
    obtain ⟨hmem, hid⟩ := getEntry_eq_some_iff.mp he'
    exact ⟨e', getEntry_eq_some_iff.mpr ⟨(Indexed.mem_deleteMany.mp hmem).1, hid⟩, rfl⟩
  | incrementSubscriberCount entryId delta =>
    have hget : getEntry x (incrementSubscriberCount entryId delta s) =
        (getEntry x s).map fun e => if e.id == entryId then e.count delta else e :=
      getEntry_incrementSubscriberCount delta
    obtain ⟨e, he, rfl⟩ := Option.map_eq_some_iff.mp (hget.symm.trans he')
    have hid : e.id = x := (getEntry_eq_some_iff.mp he).2
    refine ⟨e, he, ?_⟩
    show _ + 0 + _ = e.subscriberCount + (if entryId = x then delta else 0) + subscriptionCount x s
    by_cases hx : entryId = x
    · rw [if_pos hx, if_pos (beq_iff_eq.mpr (hid.trans hx.symm)), Int.add_zero]
      rfl
    · rw [if_neg hx, if_neg fun hbeq => hx ((beq_iff_eq.mp hbeq).symm.trans hid), Int.add_zero]
  | insertSubscription sub =>
    cases hinserted : (insertSubscription sub s).2 with
    | false =>
      have hsame : effect (.insertSubscription sub) s = s := insertSubscription_refused hinserted
      rw [hsame] at he' ⊢
      refine ⟨e', he', ?_⟩
      simp [owed, owes, hinserted]
    | true =>
      have hentries : getEntry x (insertSubscription sub s).1 = getEntry x s := by
        unfold insertSubscription
        split
        · rfl
        · rfl
      refine ⟨e', hentries.symm.trans he', ?_⟩
      have hcount := subscriptionCount_insert x hinserted
      simp only [owed, owes, effect, hinserted, true_and, hcount]
      split
      · omega
      · omega
  | updateSubscription subId version =>
    refine ⟨e', he', ?_⟩
    simp only [owed, owes, effect, subscriptionCount_update]
  | deleteSubscription sub =>
    refine ⟨e', he', ?_⟩
    simp only [owed, owes, effect]
    rcases hhits sub rfl with ⟨d, hd, hid, hentry⟩ | ⟨hnone, hother⟩
    · have hcount := subscriptionCount_delete x (s := s) hd
      rw [hid, hentry] at hcount
      by_cases hx : sub.libraryEntryId = x
      · rw [if_pos hx] at hcount ⊢
        omega
      · rw [if_neg hx] at hcount ⊢
        omega
    · rw [if_neg hother, subscriptionCount_delete_none x hnone]
  | deleteSubscriptionsByEntry entryId =>
    have hne : entryId ≠ x := fun hx => hl (by rw [hx])
    refine ⟨e', he', ?_⟩
    simp only [owed, owes, effect, subscriptionCount_deleteByEntry hne]
  | copyMarkers entry groupId => exact ⟨e', he', rfl⟩
  | pullMarkers entryId groupId => exact ⟨e', he', rfl⟩
  | getEntry entryId => exact ⟨e', he', rfl⟩
  | getEntriesByIds entryIds => exact ⟨e', he', rfl⟩
  | getSubscription groupId entryId => exact ⟨e', he', rfl⟩
  | listAutoUpdateSubscriptions => exact ⟨e', he', rfl⟩

end Counters

/-- No group has copies of an entry that it does not subscribe to. -/
def Owned (s : LibraryStore) : Prop :=
  ∀ groupId entryId, (groupId, entryId) ∉ pairs s → copies groupId entryId s = []

theorem owned_iff {s : LibraryStore} :
    Owned s ↔ ∀ groupId entryId, ∀ m ∈ markersOf groupId s,
      m.addedBy = some (provenance entryId) →
        ∃ sub ∈ s.subscriptions, sub.groupId = groupId ∧ sub.libraryEntryId = entryId := by
  constructor
  · intro h groupId entryId m hm hadded
    by_contra hnone
    have hcopy : m ∈ copies groupId entryId s := List.mem_filter.mpr ⟨hm, beq_iff_eq.mpr hadded⟩
    rw [h groupId entryId] at hcopy
    · exact List.not_mem_nil hcopy
    · intro hpair
      obtain ⟨sub, hsub, heq⟩ := List.mem_map.mp hpair
      exact hnone ⟨sub, hsub, Prod.mk.inj heq⟩
  · intro h groupId entryId hnone
    refine List.filter_eq_nil_iff.mpr fun m hm hadded => ?_
    obtain ⟨sub, hsub, hgroup, hentry⟩ := h groupId entryId m hm (beq_iff_eq.mp hadded)
    exact hnone (List.mem_map.mpr ⟨sub, hsub, Prod.ext hgroup hentry⟩)

theorem Owned.insertSubscription {s : LibraryStore} (h : Owned s) (sub : LibrarySubscription) :
    Owned (insertSubscription sub s).1 := by
  unfold Library.insertSubscription
  cases hinsert : s.subscriptions.insertOne sub with
  | none => exact h
  | some subscriptions =>
    intro groupId entryId hnone
    refine h groupId entryId fun hpair => hnone ?_
    unfold pairs
    rw [Indexed.docs_insertOne hinsert, List.map_append]
    exact List.mem_append_left _ hpair

theorem Owned.deleteSubscriptions {s : LibraryStore} {p : LibrarySubscription → Bool}
    (h : Owned s)
    (hp : ∀ d ∈ s.subscriptions.docs, p d = true → copies d.groupId d.libraryEntryId s = []) :
    Owned { s with subscriptions := s.subscriptions.deleteMany p } := by
  intro groupId entryId hnone
  by_cases hpair : (groupId, entryId) ∈ pairs s
  · obtain ⟨d, hd, heq⟩ := List.mem_map.mp hpair
    obtain ⟨hgroup, hentry⟩ := Prod.mk.inj heq
    have hdeleted : p d = true := by
      by_contra hkept
      exact hnone (List.mem_map.mpr ⟨d, List.mem_filter.mpr ⟨hd, by simp [hkept]⟩, heq⟩)
    have hcopies := hp d hd hdeleted
    rw [hgroup, hentry] at hcopies
    exact hcopies
  · exact h groupId entryId hpair

theorem owned_effect {n : Nat} {c : CallPool n} {l : LibraryOp} (h : Owned c.state)
    (hsafe : SafeStep c l) : Owned (effect l c.state) := by
  cases l with
  | insertSubscription sub => exact h.insertSubscription sub
  | updateSubscription subId version =>
    intro groupId entryId hnone
    have hpairs : pairs (updateSubscription subId version c.state) = pairs c.state :=
      map_updateSubscription version fun _ => rfl
    refine h groupId entryId fun hpair => hnone ?_
    show (groupId, entryId) ∈ pairs (updateSubscription subId version c.state)
    rw [hpairs]
    exact hpair
  | deleteSubscription sub =>
    refine h.deleteSubscriptions fun d hd hid => ?_
    have hid : d.id = sub.id := beq_iff_eq.mp hid
    rcases hsafe with ⟨d', hd', hid', -, hcopies⟩ | ⟨hnone, -⟩
    · rw [Indexed.eq_of_key hd hd' (hid.trans hid'.symm)]
      exact hcopies
    · exact absurd hid (hnone d hd)
  | deleteSubscriptionsByEntry entryId =>
    exact h.deleteSubscriptions fun d hd hentry => hsafe d hd (beq_iff_eq.mp hentry)
  | copyMarkers entry groupId' =>
    intro groupId entryId hnone
    have hne : (groupId', entry.id) ≠ (groupId, entryId) := fun heq => hnone (heq ▸ hsafe)
    exact (copies_copyMarkers_of_ne hne).trans (h groupId entryId hnone)
  | pullMarkers entryId' groupId' =>
    intro groupId entryId hnone
    by_cases heq : (groupId', entryId') = (groupId, entryId)
    · obtain ⟨rfl, rfl⟩ := Prod.mk.inj heq
      exact copies_pullMarkers_self
    · exact (copies_pullMarkers_of_ne heq).trans (h groupId entryId hnone)
  | updateEntry entryId r => exact h
  | deleteEntry entryId => exact h
  | incrementSubscriberCount entryId delta => exact h
  | getEntry entryId => exact h
  | getEntriesByIds entryIds => exact h
  | getSubscription groupId entryId => exact h
  | listAutoUpdateSubscriptions => exact h

section Runs

variable {n : Nat} {c : CallPool n} {i j : Fin n} {l : LibraryOp} {x : String}

/-- The copies have subscriptions, and the counters are right or do not matter. -/
structure Kept (c : CallPool n) : Prop where
  lawful : ∀ i, Always Lawful (c.procs i)
  owned : Owned c.state
  accounts : ∀ entryId, (∃ i, DeletedBy c entryId i) ∨ Balanced c entryId

theorem turn_of_lawful (h : Always Lawful (c.procs i)) (hl : (c.procs i).next? = some l) :
    (c.turn i).state = effect l c.state ∧
      (∀ x, ((c.turn i).procs i).next?.elim 0 (owes x) = owed x c.state l) ∧
      ∀ x, l = .deleteSubscriptionsByEntry x → DeletedBy (c.turn i) x i := by
  unfold DeletedBy
  cases hp : c.procs i with
  | ret a =>
    rw [hp] at hl
    cases hl
  | step l' u k =>
    rw [hp] at h hl
    obtain rfl : l' = l := Option.some.inj hl
    rw [Pool.turn_of_step hp]
    dsimp only
    rw [Function.update_self]
    exact h.1 c.state

theorem DeletedBy.turn (h : DeletedBy c x j) (hj : j ≠ i) : DeletedBy (c.turn i) x j := by
  unfold DeletedBy
  rw [Pool.turn_procs_of_ne hj]
  exact h

theorem DeletedBy.cut {a : Except LibraryFailure Unit} (h : DeletedBy c x j) (hj : j ≠ i) :
    DeletedBy (c.cut a i) x j := by
  unfold DeletedBy
  rw [Pool.procs_cut_of_ne hj]
  exact h

theorem Balanced.turn (h : Balanced c x) (hlawful : Always Lawful (c.procs i))
    (hl : (c.procs i).next? = some l) (hne : l ≠ .deleteSubscriptionsByEntry x)
    (hhits : Hits c.state x l) : Balanced (c.turn i) x := by
  obtain ⟨hstate, howed, -⟩ := turn_of_lawful hlawful hl
  intro e' he'
  rw [hstate] at he' ⊢
  obtain ⟨e, he, haccount⟩ := account_effect he' hne hhits
  have hbalance := h e he
  rw [Pool.owing_turn hl, howed]
  omega

theorem balanced_of_gone (h : getEntry x c.state = none) : Balanced c x := by
  intro e he
  rw [h] at he
  cases he

theorem excused_of_not_hits (hsafe : SafeStep c l) (hmiss : ¬Hits c.state x l) :
    (∃ sub, l = .deleteSubscription sub) ∧ Excused c x := by
  unfold Hits at hmiss
  push Not at hmiss
  obtain ⟨sub, rfl, hstored, hother⟩ := hmiss
  refine ⟨⟨sub, rfl⟩, ?_⟩
  rcases hsafe with ⟨d, hd, hid, hpair, -⟩ | ⟨hnone, hexcused⟩
  · exact absurd (Prod.mk.inj hpair).2 (hstored d hd hid)
  · rw [← hother hnone]
    exact hexcused

theorem increment_of_owes (h : owes x l ≠ 0) : ∃ delta, l = .incrementSubscriberCount x delta := by
  cases l with
  | incrementSubscriberCount entryId delta =>
    by_cases hx : entryId = x
    · exact ⟨delta, by rw [hx]⟩
    · exact absurd (if_neg hx) h
  | _ => exact absurd rfl h

theorem Kept.turn (h : Kept c) (hsafe : Safe c (.turn i)) : Kept (c.turn i) := by
  cases hl : (c.procs i).next? with
  | none =>
    rw [Pool.turn_of_next?_none hl]
    exact h
  | some l =>
    have hstep := hsafe l hl
    obtain ⟨hstate, -, hdelete⟩ := turn_of_lawful (h.lawful i) hl
    refine ⟨Pool.turn_always h.lawful i, ?_, fun x => ?_⟩
    · rw [hstate]
      exact owned_effect h.owned hstep
    · by_cases hall : l = .deleteSubscriptionsByEntry x
      · exact Or.inl ⟨i, hdelete x hall⟩
      rcases h.accounts x with ⟨j, hj⟩ | hbalanced
      · by_cases hij : j = i
        · subst hij
          obtain rfl : l = .deleteEntry x := Option.some.inj (hl.symm.trans hj)
          refine Or.inr (balanced_of_gone ?_)
          rw [hstate]
          refine Collection.get_eq_none_iff.mpr fun e he hid => ?_
          have hkept := (Indexed.mem_deleteMany.mp he).2
          exact absurd (beq_iff_eq.mpr hid) (by rw [hkept]; exact Bool.false_ne_true)
        · exact Or.inl ⟨j, hj.turn hij⟩
      · by_cases hhits : Hits c.state x l
        · exact Or.inr (hbalanced.turn (h.lawful i) hl hall hhits)
        · obtain ⟨⟨sub, rfl⟩, hgone | ⟨j, hj⟩⟩ := excused_of_not_hits hstep hhits
          · refine Or.inr (balanced_of_gone ?_)
            rw [hstate]
            exact hgone
          · refine Or.inl ⟨j, hj.turn fun hij => ?_⟩
            subst hij
            cases hl.symm.trans hj

theorem Kept.cut (h : Kept c) (hsafe : Safe c (.cut i)) : Kept (c.cut (.error .raised) i) := by
  cases hl : (c.procs i).next? with
  | none =>
    rw [Pool.cut_of_next?_none hl]
    exact h
  | some l =>
    have hcut := hsafe l hl
    have howing : ∀ x, (c.cut (.error .raised) i).owing (owes x) = c.owing (owes x) - owes x l :=
      fun x => Pool.owing_cut hl
    refine ⟨Pool.cut_always h.lawful trivial i, ?_, fun x => ?_⟩
    · rw [Pool.state_cut]
      exact h.owned
    have hstays : owes x l = 0 → Balanced c x → Balanced (c.cut (.error .raised) i) x := by
      intro hzero hbalanced e he
      rw [Pool.state_cut] at he ⊢
      rw [howing, hzero, Int.sub_zero]
      exact hbalanced e he
    rcases h.accounts x with ⟨j, hj⟩ | hbalanced
    · by_cases hij : j = i
      · subst hij
        obtain rfl : l = .deleteEntry x := Option.some.inj (hl.symm.trans hj)
        rcases hcut with ⟨k, hk, hdeleted⟩ | hbalanced
        · exact Or.inl ⟨k, hdeleted.cut hk⟩
        · exact Or.inr (hstays rfl hbalanced)
      · exact Or.inl ⟨j, hj.cut hij⟩
    · by_cases hzero : owes x l = 0
      · exact Or.inr (hstays hzero hbalanced)
      · obtain ⟨delta, rfl⟩ := increment_of_owes hzero
        rcases hcut with hgone | ⟨j, hj⟩
        · refine Or.inr (balanced_of_gone ?_)
          rw [Pool.state_cut]
          exact hgone
        · refine Or.inl ⟨j, hj.cut fun hij => ?_⟩
          subst hij
          cases hl.symm.trans hj

def machine (n : Nat) : Machine (CallPool n) (Pool.Event (Fin n)) := Pool.cuttable (.error .raised)

instance (n : Nat) (c : CallPool n) (event : Pool.Event (Fin n)) :
    Decidable ((machine n).Enabled c event) :=
  isTrue trivial

theorem kept_after (h : Kept c) {events : List (Pool.Event (Fin n))}
    (hruns : (machine n).Runs Safe c events) : Kept ((machine n).after c events) := by
  refine Machine.Keeps.after (I := Kept) (fun c event _ hsafe hc => ?_) hruns h
  cases event with
  | turn i => exact hc.turn hsafe
  | cut i => exact hc.cut hsafe

theorem owes_first (call : Call) : (program call).next?.elim 0 (owes x) = 0 := by
  cases call with
  | subscribe r => rfl
  | unsubscribe entryId groupId => rfl
  | deleteEntry entryId => rfl

theorem kept_callPool (calls : Fin n → Call) {s : LibraryStore} (h : Accounted s) :
    Kept (callPool calls s) := by
  refine ⟨fun i => always_lawful_program (calls i), owned_iff.mpr h.subscribed, fun x => Or.inr ?_⟩
  intro e he
  have hnone : (callPool calls s).owing (owes x) = 0 :=
    Finset.sum_eq_zero fun i _ => owes_first (calls i)
  obtain ⟨hmem, hid⟩ := getEntry_eq_some_iff.mp he
  rw [hnone, Int.add_zero, h.counted e hmem, hid]
  rfl

/-- From a store in which everything is accounted for, it is again when all calls have
finished or were cut off, if every step and every cut of the run was safe. -/
theorem accounted_after (n : Nat) (calls : Fin n → Call) (s : LibraryStore) (hs : Accounted s)
    (events : List (Pool.Event (Fin n)))
    (hruns : (machine n).Runs Safe (callPool calls s) events) :
    let c := (machine n).after (callPool calls s) events
    (∀ i, (c.procs i).result?.isSome) → Accounted c.state := by
  intro c hfinished
  have hkept := kept_after (kept_callPool calls hs) hruns
  have hnone : ∀ i, (c.procs i).next? = none := by
    intro i
    have hi := hfinished i
    cases hp : c.procs i with
    | ret a => rfl
    | step l u k =>
      rw [hp] at hi
      cases hi
  refine ⟨owned_iff.mp hkept.owned, fun sub hsub sub' hsub' hgroup hentry => ?_, fun e he => ?_⟩
  · exact Indexed.eq_of_index hsub hsub' (Prod.ext hgroup hentry)
  · rcases hkept.accounts e.id with ⟨i, hi⟩ | hbalanced
    · cases (hnone i).symm.trans hi
    · have hcount := hbalanced e (getEntry_eq_some_iff.mpr ⟨he, rfl⟩)
      rw [Pool.owing_finished hnone, Int.add_zero] at hcount
      exact hcount

end Runs

def sampleMarker : LibraryMarker := { pattern := "firefox*", displayName := "firefox" }

def sampleStore : LibraryStore where
  entries := ⟨⟨[{ id := "e1", name := "firefox", markers := [sampleMarker] }], by decide⟩,
    by decide⟩
  subscriptions := .empty
  fingerprints := .empty

theorem sampleStore_accounted : Accounted sampleStore := by
  refine ⟨fun groupId entryId m hm => ?_, fun sub hsub => ?_, fun e he => ?_⟩
  · have hnone : m ∈ ([] : List FingerprintMarker) := hm
    exact absurd hnone List.not_mem_nil
  · exact absurd hsub List.not_mem_nil
  · rw [List.mem_singleton.mp he]
    rfl

def sampleSubscribe (groupId : String) : SubscribeRequest :=
  { id := groupId, entryId := "e1", groupId }

def twoSubscribers : Fin 2 → Call
  | 0 => .subscribe (sampleSubscribe "g1")
  | 1 => .subscribe (sampleSubscribe "g2")

def subscriberAndDeletion : Fin 2 → Call
  | 0 => .subscribe (sampleSubscribe "g1")
  | 1 => .deleteEntry "e1"

/-- Two groups subscribe at once, and the first call is cut off before its copy. -/
theorem accounted_after_cut :
    Accounted ((machine 2).after (callPool twoSubscribers sampleStore)
      [.turn 0, .turn 1, .turn 0, .turn 1, .turn 0, .turn 1, .turn 0, .turn 1, .cut 0, .turn 1,
        .turn 1]).state :=
  accounted_after 2 twoSubscribers sampleStore sampleStore_accounted _ (by decide) (by decide)

/-- A group subscribes, and the entry is deleted after it. -/
theorem deletion_leaves_copies :
    ¬∀ (n : Nat) (calls : Fin n → Call) (s : LibraryStore), Accounted s →
      ∀ events : List (Pool.Event (Fin n)),
        let c := (machine n).after (callPool calls s) events
        (∀ i, (c.procs i).result?.isSome) → Accounted c.state := by
  intro hclaim
  have haccounted := hclaim 2 subscriberAndDeletion sampleStore sampleStore_accounted
    [.turn 0, .turn 0, .turn 0, .turn 0, .turn 0, .turn 0, .turn 1, .turn 1] (by decide)
  obtain ⟨sub, hsub, -⟩ := haccounted.subscribed "g1" "e1" (copyMarker "e1" sampleMarker)
    (List.mem_singleton_self _) rfl
  exact List.not_mem_nil hsub

end Sentora.Library.Drift
