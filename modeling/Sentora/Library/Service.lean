import Sentora.Lib.Process
import Sentora.Library.Documents

/-!
# The library service

`subscribe`, `unsubscribe`, `update_entry`, `delete_entry` and
`sync_stale_subscriptions` of `domains/library/service.py`, cut at their calls of the
database.  The id of a new subscription is given with the request.
-/

namespace Sentora.Library

open Lib Process

/-- The calls of the database, with what they are given. -/
inductive LibraryOp where
  | getEntry (entryId : String)
  | getEntriesByIds (entryIds : List String)
  | updateEntry (entryId : String) (r : LibraryEntryUpdateRequest)
  | deleteEntry (entryId : String)
  | incrementSubscriberCount (entryId : String) (delta : Int)
  | getSubscription (groupId entryId : String)
  | listAutoUpdateSubscriptions
  | insertSubscription (sub : LibrarySubscription)
  | updateSubscription (subId : String) (syncedVersion : Int)
  | deleteSubscription (sub : LibrarySubscription)
  | deleteSubscriptionsByEntry (entryId : String)
  | copyMarkers (entry : LibraryEntry) (groupId : String)
  | pullMarkers (entryId groupId : String)
deriving DecidableEq

/-- The errors of the service, and any exception from below it. -/
inductive LibraryFailure where
  | entryNotFound (message : String)
  | subscriptionConflict (message : String)
  | library (message : String)
  | raised
deriving DecidableEq

abbrev LibraryM := ExceptT LibraryFailure (Process LibraryStore LibraryOp)

def call {α : Type} (op : LibraryOp) (f : LibraryStore → LibraryStore × α) : LibraryM α :=
  liftM (atomic op f : Process LibraryStore LibraryOp α)

def query {α : Type} (op : LibraryOp) (f : LibraryStore → α) : LibraryM α :=
  call op fun s => (s, f s)

def command (op : LibraryOp) (f : LibraryStore → LibraryStore) : LibraryM Unit :=
  call op fun s => (f s, ())

def entryNotFound (entryId : String) : LibraryFailure :=
  .entryNotFound ("Library entry '" ++ entryId ++ "' not found")

def alreadySubscribed (groupId entryId : String) : LibraryFailure :=
  .subscriptionConflict
    ("Group '" ++ groupId ++ "' is already subscribed to entry '" ++ entryId ++ "'")

structure SubscribeRequest where
  id : String
  entryId : String
  groupId : String
  subscribedBy : String := "system"
  autoUpdate : Bool := true
deriving DecidableEq

def newSubscription (r : SubscribeRequest) : LibrarySubscription where
  id := r.id
  groupId := r.groupId
  libraryEntryId := r.entryId
  subscribedBy := r.subscribedBy
  autoUpdate := r.autoUpdate

structure SubscriptionResponse where
  id : String
  groupId : String
  libraryEntryId : String
  entryName : String
  syncedVersion : Int
  autoUpdate : Bool
  subscribedBy : String
deriving DecidableEq

def subToResponse (sub : LibrarySubscription) (entryName : String) : SubscriptionResponse :=
  ⟨sub.id, sub.groupId, sub.libraryEntryId, entryName, sub.syncedVersion, sub.autoUpdate,
    sub.subscribedBy⟩

/-- `_sync_markers_to_group`: an entry without markers is not copied. -/
def syncMarkersToGroup (entry : LibraryEntry) (groupId : String) :
    Process LibraryStore LibraryOp Unit :=
  if entry.markers.isEmpty then pure ()
  else Process.write (.copyMarkers entry groupId) (copyMarkers entry groupId)

def subscribe (r : SubscribeRequest) : LibraryM SubscriptionResponse := do
  let found ← query (.getEntry r.entryId) (getEntry r.entryId)
  let entry ← orThrow (entryNotFound r.entryId) found
  let existing ← query (.getSubscription r.groupId r.entryId)
    (getSubscriptionByGroupEntry r.groupId r.entryId)
  throwIf existing.isSome (alreadySubscribed r.groupId r.entryId)
  let inserted ← call (.insertSubscription (newSubscription r))
    (insertSubscription (newSubscription r))
  throwIf (!inserted) .raised
  command (.incrementSubscriberCount r.entryId 1) (incrementSubscriberCount r.entryId 1)
  liftM (syncMarkersToGroup entry r.groupId)
  command (.updateSubscription r.id entry.version) (updateSubscription r.id entry.version)
  pure (subToResponse (newSubscription r) entry.name)

def unsubscribe (entryId groupId : String) : LibraryM Unit := do
  let found ← query (.getSubscription groupId entryId) (getSubscriptionByGroupEntry groupId entryId)
  let sub ← orThrow (.library "Subscription not found") found
  command (.pullMarkers entryId groupId) (pullMarkers entryId groupId)
  command (.deleteSubscription sub) (deleteSubscription sub.id)
  command (.incrementSubscriberCount entryId (-1)) (incrementSubscriberCount entryId (-1))

def deleteEntry (entryId : String) : LibraryM Unit := do
  command (.deleteSubscriptionsByEntry entryId) (deleteSubscriptionsByEntry entryId)
  let deleted ← call (.deleteEntry entryId) (deleteEntryDoc entryId)
  throwIf (!deleted) (entryNotFound entryId)

def getEntryOrThrow (entryId : String) : LibraryM LibraryEntry := do
  let found ← query (.getEntry entryId) (getEntry entryId)
  orThrow (entryNotFound entryId) found

/-- `update_entry`, which only reads where no field is given. -/
def updateEntry (entryId : String) (r : LibraryEntryUpdateRequest) : LibraryM LibraryEntry :=
  if r = {} then getEntryOrThrow entryId
  else do
    let updated ← call (.updateEntry entryId r) (updateEntryDoc entryId r)
    throwIf (!updated) (entryNotFound entryId)
    getEntryOrThrow entryId

def syncEach (entryMap : List LibraryEntry) :
    List LibrarySubscription → Process LibraryStore LibraryOp Nat
  | [] => pure 0
  | sub :: rest =>
    match entryMap.find? fun e => e.id == sub.libraryEntryId with
    | none => syncEach entryMap rest
    | some entry =>
      if entry.version ≤ sub.syncedVersion then syncEach entryMap rest
      else do
        syncMarkersToGroup entry sub.groupId
        Process.write (.updateSubscription sub.id entry.version)
          (updateSubscription sub.id entry.version)
        let count ← syncEach entryMap rest
        pure (count + 1)

def syncStaleSubscriptions : Process LibraryStore LibraryOp Nat := do
  let stale ← Process.read .listAutoUpdateSubscriptions listAutoUpdateSubscriptions
  let entryIds := stale.map LibrarySubscription.libraryEntryId
  let entries ← Process.read (.getEntriesByIds entryIds) (getEntriesByIds entryIds)
  syncEach entries stale

/-- `_sync_markers_to_group` and the version that it copied. -/
def refresh (entry : LibraryEntry) (groupId subId : String) (s : LibraryStore) : LibraryStore :=
  updateSubscription subId entry.version
    (if entry.markers.isEmpty then s else copyMarkers entry groupId s)

/-- What `subscribe` leaves. -/
def subscribed (r : SubscribeRequest) (s : LibraryStore) : LibraryStore :=
  match getEntry r.entryId s, getSubscriptionByGroupEntry r.groupId r.entryId s with
  | some entry, none =>
    if (insertSubscription (newSubscription r) s).2 then
      refresh entry r.groupId r.id
        (incrementSubscriberCount r.entryId 1 (insertSubscription (newSubscription r) s).1)
    else s
  | _, _ => s

/-- What `update_entry` leaves. -/
def edited (entryId : String) (r : LibraryEntryUpdateRequest) (s : LibraryStore) : LibraryStore :=
  if r = {} then s else (updateEntryDoc entryId r s).1

def syncOne (entryMap : List LibraryEntry) (s : LibraryStore) (sub : LibrarySubscription) :
    LibraryStore :=
  match entryMap.find? fun e => e.id == sub.libraryEntryId with
  | none => s
  | some entry =>
    if entry.version ≤ sub.syncedVersion then s else refresh entry sub.groupId sub.id s

/-- What `sync_stale_subscriptions` leaves. -/
def synced (s : LibraryStore) : LibraryStore :=
  let stale := listAutoUpdateSubscriptions s
  stale.foldl (syncOne (getEntriesByIds (stale.map LibrarySubscription.libraryEntryId) s)) s

section Alone

variable {α β : Type} {s : LibraryStore}

@[simp] theorem run_call_bind (op : LibraryOp) (f : LibraryStore → LibraryStore × α)
    (k : α → LibraryM β) (s : LibraryStore) :
    Process.run (call op f >>= k).run s = Process.run (k (f s).2).run (f s).1 :=
  rfl

@[simp] theorem run_query_bind (op : LibraryOp) (f : LibraryStore → α) (k : α → LibraryM β)
    (s : LibraryStore) : Process.run (query op f >>= k).run s = Process.run (k (f s)).run s :=
  rfl

@[simp] theorem run_command_bind (op : LibraryOp) (f : LibraryStore → LibraryStore)
    (k : Unit → LibraryM β) (s : LibraryStore) :
    Process.run (command op f >>= k).run s = Process.run (k ()).run (f s) :=
  rfl

theorem run_syncMarkersToGroup (entry : LibraryEntry) (groupId : String) (s : LibraryStore) :
    (syncMarkersToGroup entry groupId).run s =
      (if entry.markers.isEmpty then s else copyMarkers entry groupId s, ()) := by
  unfold syncMarkersToGroup
  split
  · rfl
  · rfl

theorem insertSubscription_refused {sub : LibrarySubscription}
    (h : (insertSubscription sub s).2 = false) : (insertSubscription sub s).1 = s := by
  unfold insertSubscription at h ⊢
  split at h
  · cases h
  · rfl

theorem state_subscribe (r : SubscribeRequest) (s : LibraryStore) :
    (Process.run (subscribe r).run s).1 = subscribed r s := by
  unfold subscribe subscribed
  rw [run_query_bind]
  cases hentry : getEntry r.entryId s with
  | none => rfl
  | some entry =>
    show (Process.run (query _ _ >>= _).run s).1 = _
    rw [run_query_bind]
    cases hexisting : getSubscriptionByGroupEntry r.groupId r.entryId s with
    | some existing => rfl
    | none =>
      show (Process.run (call _ _ >>= _).run s).1 = _
      rw [run_call_bind]
      cases hinserted : (insertSubscription (newSubscription r) s).2 with
      | false =>
        rw [insertSubscription_refused hinserted]
        rfl
      | true =>
        show (Process.run (command _ _ >>= _).run _).1 = _
        rw [run_command_bind, run_lift_bind, run_syncMarkersToGroup]
        rfl

theorem state_getEntryOrThrow {entryId : String} {s : LibraryStore} :
    (Process.run (getEntryOrThrow entryId).run s).1 = s := by
  unfold getEntryOrThrow
  rw [run_query_bind]
  cases getEntry entryId s with
  | none => rfl
  | some entry => rfl

theorem state_updateEntry (entryId : String) (r : LibraryEntryUpdateRequest) (s : LibraryStore) :
    (Process.run (updateEntry entryId r).run s).1 = edited entryId r s := by
  unfold updateEntry edited
  by_cases hr : r = {}
  · rw [if_pos hr, if_pos hr]
    exact state_getEntryOrThrow
  · rw [if_neg hr, if_neg hr, run_call_bind]
    cases (updateEntryDoc entryId r s).2 with
    | false => rfl
    | true => exact state_getEntryOrThrow

theorem state_syncEach (entryMap : List LibraryEntry) (subs : List LibrarySubscription)
    (s : LibraryStore) :
    ((syncEach entryMap subs).run s).1 = subs.foldl (syncOne entryMap) s := by
  induction subs generalizing s with
  | nil => rfl
  | cons sub rest ih =>
    rw [syncEach, List.foldl_cons, syncOne]
    cases entryMap.find? fun e => e.id == sub.libraryEntryId with
    | none => exact ih s
    | some entry =>
      dsimp only
      by_cases hversion : entry.version ≤ sub.syncedVersion
      · rw [if_pos hversion, if_pos hversion]
        exact ih s
      · rw [if_neg hversion, if_neg hversion, run_bind, run_syncMarkersToGroup]
        show ((syncEach entryMap rest >>= fun count => pure (count + 1)).run _).1 = _
        rw [run_bind]
        exact ih _

theorem state_syncStaleSubscriptions (s : LibraryStore) :
    (syncStaleSubscriptions.run s).1 = synced s :=
  state_syncEach _ _ s

theorem find?_getEntriesByIds {entryIds : List String} {entryId : String}
    (h : entryId ∈ entryIds) :
    (getEntriesByIds entryIds s).find? (fun e => e.id == entryId) = getEntry entryId s := by
  unfold getEntriesByIds getEntry Collection.get
  rw [List.find?_filter]
  congr 1
  funext e
  by_cases he : e.id = entryId
  · simp [he, h]
  · simp [he]

end Alone

end Sentora.Library
