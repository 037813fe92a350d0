import Sentora.Lib.Machine
import Sentora.Library.Service
import Sentora.Library.SourceRunner

/-!
# Subscriptions mirror their entry

What the copies of an entry's markers are after `sync_stale_subscriptions`, in any run
of subscriptions, edits and ingestions, each of which has the store to itself.

A subscription learns of a change from the entry's version alone.  A merge that adds
markers leaves the version, and an entry that has lost its markers is not copied;
these are the two ways in which copies are left behind.
-/

namespace Sentora.Library.Mirror

open Lib

inductive Write where
  | subscribe (r : SubscribeRequest)
  | updateEntry (entryId : String) (r : LibraryEntryUpdateRequest)
  | upsert (id : String) (source : SourceType) (upstreamId : String) (data : EntryData)
  | ingest (source : SourceType) (id : String) (raw : RawEntry)
  | sync
deriving DecidableEq

def perform (text : Text) (s : LibraryStore) : Write → LibraryStore
  | .subscribe r => (Process.run (subscribe r).run s).1
  | .updateEntry entryId r => (Process.run (updateEntry entryId r).run s).1
  | .upsert id source upstreamId data =>
    ((upsertEntryByUpstream id source upstreamId data).run s).1
  | .ingest source id raw => ((ingest text source id raw).run s).1
  | .sync => (syncStaleSubscriptions.run s).1

def machine (text : Text) : Machine LibraryStore Write where
  Enabled _ _ := True
  next := perform text

def isCopy (s : LibraryStore) (groupId : String) (m : FingerprintMarker) : Bool :=
  (pairs s).any fun p => p.1 == groupId && m.addedBy == some (provenance p.2)

def isFollowed (s : LibraryStore) (groupId : String) (m : FingerprintMarker) : Bool :=
  (listAutoUpdateSubscriptions s).any fun sub => sub.groupId == groupId &&
    ((getEntry sub.libraryEntryId s).isSome && m.addedBy == some (provenance sub.libraryEntryId))

/-- After a sync from `s` the copies are the entries' markers, the markers that the
sync is not about are those of `s`, and the markers from no subscription are those of
`start`. -/
structure Mirrors (start s : LibraryStore) : Prop where
  copied : let t := (syncStaleSubscriptions.run s).1
    ∀ sub ∈ t.subscriptions, sub.autoUpdate = true → ∀ e,
      getEntry sub.libraryEntryId t = some e →
        ((copies sub.groupId e.id t).map FingerprintMarker.content).Perm
          (e.markers.map LibraryMarker.content)
  others : ∀ groupId,
    (markersOf groupId (syncStaleSubscriptions.run s).1).filter (fun m => !isFollowed s groupId m) =
      (markersOf groupId s).filter fun m => !isFollowed s groupId m
  own : let t := (syncStaleSubscriptions.run s).1
    ∀ groupId, (markersOf groupId t).filter (fun m => !isCopy t groupId m) = markersOf groupId start

def MergeSeen (s : LibraryStore) (existing : LibraryEntry) (added : List LibraryMarker) : Prop :=
  added ≠ [] → ∀ sub ∈ s.subscriptions.docs, sub.autoUpdate = true →
    sub.libraryEntryId = existing.id → sub.syncedVersion < existing.version

/-- All markers are taken away only where no group that follows the entry has copies. -/
def UpsertSeen (s : LibraryStore) (source : SourceType) (upstreamId : String)
    (markers : List LibraryMarker) : Prop :=
  markers = [] → ∀ e ∈ s.entries.getBy (source, some upstreamId), ∀ sub ∈ s.subscriptions.docs,
    sub.autoUpdate = true → sub.libraryEntryId = e.id → copies sub.groupId e.id s = []

def Seen (text : Text) (s : LibraryStore) : Write → Prop
  | .upsert _ source upstreamId data => UpsertSeen s source upstreamId data.markers
  | .ingest source _ raw =>
    match findSameName text source raw.name s with
    | some existing => MergeSeen s existing (newMarkers text existing (rawMarkers source raw))
    | none => UpsertSeen s source raw.upstreamId (rawMarkers source raw)
  | _ => True

instance (s : LibraryStore) (existing : LibraryEntry) (added : List LibraryMarker) :
    Decidable (MergeSeen s existing added) :=
  inferInstanceAs (Decidable (added ≠ [] → ∀ sub ∈ s.subscriptions.docs, sub.autoUpdate = true →
    sub.libraryEntryId = existing.id → sub.syncedVersion < existing.version))

instance (s : LibraryStore) (source : SourceType) (upstreamId : String)
    (markers : List LibraryMarker) : Decidable (UpsertSeen s source upstreamId markers) :=
  inferInstanceAs (Decidable (markers = [] → ∀ e ∈ s.entries.getBy (source, some upstreamId),
    ∀ sub ∈ s.subscriptions.docs, sub.autoUpdate = true → sub.libraryEntryId = e.id →
      copies sub.groupId e.id s = []))

instance Seen.decidable (text : Text) (s : LibraryStore) : ∀ act, Decidable (Seen text s act)
  | .upsert _ source upstreamId data =>
    inferInstanceAs (Decidable (UpsertSeen s source upstreamId data.markers))
  | .ingest source _ raw =>
    match h : findSameName text source raw.name s with
    | some existing =>
      decidable_of_iff (MergeSeen s existing (newMarkers text existing (rawMarkers source raw)))
        (by simp only [Seen, h])
    | none =>
      decidable_of_iff (UpsertSeen s source raw.upstreamId (rawMarkers source raw))
        (by simp only [Seen, h])
  | .subscribe _ => isTrue trivial
  | .updateEntry _ _ => isTrue trivial
  | .sync => isTrue trivial

instance (text : Text) (s : LibraryStore) (act : Write) :
    Decidable ((machine text).Enabled s act) :=
  isTrue trivial

/-- The subscription is not ahead of the entry, and where it is up to date, or there
is nothing to copy, the copies are exact. -/
def Exact (s : LibraryStore) (sub : LibrarySubscription) (e : LibraryEntry) : Prop :=
  sub.syncedVersion ≤ e.version ∧
    (sub.autoUpdate = true → sub.syncedVersion = e.version ∨ e.markers = [] →
      copies sub.groupId sub.libraryEntryId s = e.markers.map (copyMarker sub.libraryEntryId))

def Tracks (s : LibraryStore) (sub : LibrarySubscription) : Prop :=
  ∃ e, getEntry sub.libraryEntryId s = some e ∧ Exact s sub e

/-- Nothing is copied without a subscription, and the other markers are as they were. -/
structure Tidy (start s : LibraryStore) : Prop where
  strangers : ∀ groupId entryId, (groupId, entryId) ∉ pairs s → copies groupId entryId s = []
  own : ∀ groupId, (markersOf groupId s).filter (fun m => !isCopy s groupId m) =
    markersOf groupId start

structure Consistent (start s : LibraryStore) : Prop where
  tracks : ∀ sub ∈ s.subscriptions, Tracks s sub
  tidy : Tidy start s

section Invariant

variable {text : Text} {start s t : LibraryStore} {sub : LibrarySubscription} {e e' : LibraryEntry}
  {groupId entryId subId : String}
variable {p : FingerprintMarker → Bool} {source : SourceType} {groupId' : String}

theorem Tracks.of_entries {g : LibraryEntry → LibraryEntry} (h : Tracks s sub)
    (hfingerprints : t.fingerprints = s.fingerprints)
    (hget : ∀ e, getEntry sub.libraryEntryId s = some e →
      getEntry sub.libraryEntryId t = some (g e))
    (hexact : ∀ e, getEntry sub.libraryEntryId s = some e → Exact s sub e → Exact s sub (g e)) :
    Tracks t sub := by
  obtain ⟨e, hentry, hold⟩ := h
  have hcopies : copies sub.groupId sub.libraryEntryId t =
      copies sub.groupId sub.libraryEntryId s := by
    unfold copies markersOf
    rw [hfingerprints]
  refine ⟨g e, hget e hentry, (hexact e hentry hold).1, ?_⟩
  rw [hcopies]
  exact (hexact e hentry hold).2

theorem Tidy.of_entries (h : Tidy start s) (hfingerprints : t.fingerprints = s.fingerprints)
    (hsubscriptions : t.subscriptions = s.subscriptions) : Tidy start t := by
  have hpairs : pairs t = pairs s := by
    unfold pairs
    rw [hsubscriptions]
  have hmarkers : ∀ groupId, markersOf groupId t = markersOf groupId s := by
    intro groupId
    unfold markersOf
    rw [hfingerprints]
  constructor
  · intro groupId entryId hnone
    unfold copies
    rw [hmarkers]
    exact h.strangers groupId entryId (hpairs ▸ hnone)
  · intro groupId
    unfold isCopy
    rw [hpairs, hmarkers]
    exact h.own groupId

theorem Exact.of_same (h : Exact s sub e) (hversion : e'.version = e.version)
    (hmarkers : e'.markers = e.markers) : Exact s sub e' := by
  unfold Exact
  rw [hversion, hmarkers]
  exact h

theorem Consistent.modifyEntry {f : LibraryEntry → LibraryEntry} {hid : ∀ e, (f e).id = e.id}
    {hupstream : ∀ e, (f e).upstream = e.upstream} (h : Consistent start s)
    (hf : ∀ sub ∈ s.subscriptions, ∀ e, getEntry entryId s = some e → sub.libraryEntryId = entryId →
      Exact s sub e → Exact s sub (f e)) :
    Consistent start (s.modifyEntry entryId f hid hupstream) := by
  refine ⟨fun sub hsub => ?_, h.tidy.of_entries rfl rfl⟩
  have hget : ∀ e, getEntry sub.libraryEntryId s = some e →
      getEntry sub.libraryEntryId (s.modifyEntry entryId f hid hupstream) =
        some (if e.id == entryId then f e else e) := by
    intro e hentry
    rw [getEntry_modifyEntry, hentry]
    rfl
  refine (h.tracks sub hsub).of_entries rfl hget fun e hentry hexact => ?_
  have hown : e.id = sub.libraryEntryId := (getEntry_eq_some_iff.mp hentry).2
  by_cases he : e.id = entryId
  · have hsame : sub.libraryEntryId = entryId := hown.symm.trans he
    rw [if_pos (beq_iff_eq.mpr he)]
    exact hf sub hsub e (hsame ▸ hentry) hsame hexact
  · rw [if_neg fun hbeq => he (beq_iff_eq.mp hbeq)]
    exact hexact

theorem Consistent.edited (h : Consistent start s) (r : LibraryEntryUpdateRequest) :
    Consistent start (edited entryId r s) := by
  unfold Library.edited
  split
  · exact h
  · exact h.modifyEntry fun _ _ e _ _ hexact => hexact.of_same rfl rfl

theorem Consistent.mergeMarkers {added : List LibraryMarker} {tags : List String}
    (h : Consistent start s) (hentry : getEntry entryId s = some e) (hadded : added ≠ [])
    (hseen : MergeSeen s e added) : Consistent start (mergeMarkers entryId added tags s) := by
  refine h.modifyEntry fun sub hsub e' hentry' hown hexact => ?_
  obtain rfl : e = e' := Option.some.inj (hentry.symm.trans hentry')
  refine ⟨hexact.1, fun hauto huptodate => ?_⟩
  rcases huptodate with hversion | hempty
  · have hid : sub.libraryEntryId = e.id := hown.trans (getEntry_eq_some_iff.mp hentry).2.symm
    have hstale : sub.syncedVersion < e.version := hseen hadded sub hsub hauto hid
    have hsame : sub.syncedVersion = e.version := hversion
    omega
  · exact absurd (List.append_eq_nil_iff.mp hempty).2 hadded

theorem Consistent.upsertEntry {id upstreamId : String} {data : EntryData}
    (h : Consistent start s) (hseen : UpsertSeen s source upstreamId data.markers) :
    Consistent start (upsertEntry id source upstreamId data s).1 := by
  obtain ⟨hsubscriptions, hfingerprints⟩ := upsertEntry_keeps id source upstreamId data s
  refine ⟨fun sub hsub => ?_, h.tidy.of_entries hfingerprints hsubscriptions⟩
  rw [hsubscriptions] at hsub
  have htracks := h.tracks sub hsub
  cases hfound : s.entries.getBy (source, some upstreamId) with
  | some existing =>
    refine htracks.of_entries (g := fun e => if e.upstream == (source, some upstreamId)
      then data.apply source upstreamId e else e) hfingerprints (fun e hentry => ?_)
      fun e hentry hexact => ?_
    · rw [upsertEntry_of_found hfound, hentry]
      rfl
    · split
      · rename_i hupstream
        obtain ⟨hmem, hid⟩ := getEntry_eq_some_iff.mp hentry
        have hexisting : e ∈ s.entries.getBy (source, some upstreamId) :=
          Indexed.getBy_eq_some_iff.mpr ⟨hmem, beq_iff_eq.mp hupstream⟩
        have hle := hexact.1
        refine ⟨?_, fun hauto huptodate => ?_⟩
        · show sub.syncedVersion ≤ e.version + 1
          omega
        · rcases huptodate with hversion | hempty
          · have hsame : sub.syncedVersion = e.version + 1 := hversion
            omega
          · have hnone := hseen hempty e hexisting sub hsub hauto hid.symm
            have hmarkers : data.markers = [] := hempty
            rw [hid] at hnone
            show copies sub.groupId sub.libraryEntryId s = data.markers.map _
            rw [hnone, hmarkers]
            rfl
      · exact hexact
  | none =>
    refine htracks.of_entries (g := fun e => e) hfingerprints (fun e hentry => ?_)
      fun _ _ hexact => hexact
    obtain ⟨hmem, hid⟩ := getEntry_eq_some_iff.mp hentry
    unfold Library.upsertEntry
    rw [hfound]
    dsimp only
    cases hinsert : s.entries.insertOne (data.create id source upstreamId) with
    | none => exact hentry
    | some entries =>
      exact getEntry_eq_some_iff.mpr ⟨(Indexed.mem_insertOne hinsert).mpr (Or.inl hmem), hid⟩

theorem Consistent.ingested {id : String} {raw : RawEntry}
    (h : Consistent start s) (hseen : Seen text s (.ingest source id raw)) :
    Consistent start (ingested text source id raw s) := by
  unfold Library.ingested
  cases hfound : findSameName text source raw.name s with
  | some existing =>
    have hmerge : MergeSeen s existing (newMarkers text existing (rawMarkers source raw)) := by
      simpa only [Seen, hfound] using hseen
    have hentry : getEntry existing.id s = some existing :=
      getEntry_eq_some_iff.mpr ⟨List.mem_of_find?_eq_some hfound, rfl⟩
    dsimp only
    split
    · exact h
    · rename_i hadded
      exact h.mergeMarkers hentry (fun hnil => hadded (List.isEmpty_iff.mpr hnil)) hmerge
  | none =>
    have hupsert : UpsertSeen s source raw.upstreamId (rawMarkers source raw) := by
      simpa only [Seen, hfound] using hseen
    exact h.upsertEntry hupsert

theorem mem_updateSubscription {version : Int} :
    sub ∈ (updateSubscription subId version s).subscriptions ↔
      ∃ d ∈ s.subscriptions, (if d.id == subId then { d with syncedVersion := version } else d) =
        sub := by
  have hone : ∀ d ∈ s.subscriptions.toCollection, ∀ e ∈ s.subscriptions.toCollection,
      (d.id == subId) = true → (e.id == subId) = true → d = e := by
    intro d hd e he hdid heid
    exact Indexed.eq_of_key hd he ((beq_iff_eq.mp hdid).trans (beq_iff_eq.mp heid).symm)
  show sub ∈ s.subscriptions.toCollection.updateOne _
    (fun d => { d with syncedVersion := version }) (fun _ => rfl) ↔ _
  rw [Collection.mem_updateOne_iff hone]
  rfl

theorem mem_refresh :
    sub ∈ (refresh e groupId subId s).subscriptions ↔
      ∃ d ∈ s.subscriptions, (if d.id == subId then { d with syncedVersion := e.version } else d) =
        sub := by
  unfold refresh
  rw [mem_updateSubscription]
  split
  · rfl
  · rfl

theorem getEntry_refresh : getEntry entryId (refresh e groupId subId s) = getEntry entryId s := by
  show getEntry entryId (if e.markers.isEmpty then s else copyMarkers e groupId s) = _
  split
  · rfl
  · rfl

theorem pairs_refresh : pairs (refresh e groupId subId s) = pairs s := by
  unfold refresh pairs
  rw [map_updateSubscription e.version fun _ => rfl]
  split
  · rfl
  · rfl

theorem copies_refresh_of_ne (h : (groupId', e.id) ≠ (groupId, entryId)) :
    copies groupId entryId (refresh e groupId' subId s) = copies groupId entryId s := by
  show copies groupId entryId (if e.markers.isEmpty then s else copyMarkers e groupId' s) = _
  split
  · rfl
  · exact copies_copyMarkers_of_ne h

theorem copies_refresh_self (hempty : e.markers = [] → copies groupId e.id s = []) :
    copies groupId e.id (refresh e groupId subId s) = e.markers.map (copyMarker e.id) := by
  show copies groupId e.id (if e.markers.isEmpty then s else copyMarkers e groupId s) = _
  split
  · rename_i hnone
    rw [hempty (List.isEmpty_iff.mp hnone), List.isEmpty_iff.mp hnone]
    rfl
  · exact copies_copyMarkers_self

theorem filter_refresh
    (hp : groupId' = groupId → ∀ m : FingerprintMarker, m.addedBy = some (provenance e.id) →
      p m = false) :
    (markersOf groupId (refresh e groupId' subId s)).filter p =
      (markersOf groupId s).filter p := by
  show (markersOf groupId (if e.markers.isEmpty then s else copyMarkers e groupId' s)).filter p = _
  split
  · rfl
  · exact filter_copyMarkers hp

theorem Tidy.refresh (h : Tidy start s) (hpair : (groupId', e.id) ∈ pairs s) :
    Tidy start (refresh e groupId' subId s) := by
  constructor
  · intro groupId entryId hnone
    rw [pairs_refresh] at hnone
    have hne : (groupId', e.id) ≠ (groupId, entryId) := fun heq => hnone (heq ▸ hpair)
    rw [copies_refresh_of_ne hne]
    exact h.strangers groupId entryId hnone
  · intro groupId
    unfold isCopy
    rw [pairs_refresh]
    refine (filter_refresh fun hgroup m hm => ?_).trans (h.own groupId)
    have hcopy : (pairs s).any (fun p => p.1 == groupId && m.addedBy == some (provenance p.2)) =
        true := by
      rw [List.any_eq_true]
      exact ⟨_, hpair, by simp [hgroup, hm]⟩
    rw [hcopy]
    rfl

theorem tracks_refresh {d : LibrarySubscription} (hd : d ∈ s.subscriptions)
    (hpair : d.pair = (groupId, e.id)) (hentry : getEntry e.id s = some e')
    (hversion : e'.version = e.version) (hmarkers : e'.markers = e.markers)
    (hempty : e.markers = [] → copies groupId e.id s = [])
    (hothers : ∀ sub ∈ s.subscriptions, sub.id ≠ d.id → Tracks s sub) :
    ∀ sub ∈ (refresh e groupId d.id s).subscriptions,
      Tracks (refresh e groupId d.id s) sub := by
  intro sub hsub
  obtain ⟨old, hold, rfl⟩ := mem_refresh.mp hsub
  by_cases hid : old.id = d.id
  · obtain rfl : old = d := Indexed.eq_of_key hold hd hid
    obtain ⟨hgroup, hentryId⟩ := Prod.mk.inj hpair
    rw [if_pos (beq_iff_eq.mpr rfl)]
    refine ⟨e', ?_, ?_, fun _ _ => ?_⟩
    · rw [getEntry_refresh]
      show getEntry old.libraryEntryId s = _
      rw [hentryId]
      exact hentry
    · exact Int.le_of_eq hversion.symm
    · show copies old.groupId old.libraryEntryId _ = _
      rw [hgroup, hentryId, hmarkers]
      exact copies_refresh_self hempty
  · rw [if_neg fun hbeq => hid (beq_iff_eq.mp hbeq)]
    obtain ⟨f, hf, hexact⟩ := hothers old hold hid
    have hne : (groupId, e.id) ≠ (old.groupId, old.libraryEntryId) := by
      intro heq
      have hsame : d.pair = old.pair := hpair.trans heq
      rw [Indexed.eq_of_index hd hold hsame] at hid
      exact hid rfl
    refine ⟨f, getEntry_refresh.trans hf, hexact.1, ?_⟩
    rw [copies_refresh_of_ne hne]
    exact hexact.2

theorem Tidy.inserted {subscriptions : Indexed LibrarySubscription.id LibrarySubscription.pair}
    (h : Tidy start s) (hinsert : s.subscriptions.insertOne sub = some subscriptions) :
    Tidy start { s with subscriptions } := by
  have hpairs : pairs { s with subscriptions } = pairs s ++ [sub.pair] := by
    unfold pairs
    rw [Indexed.docs_insertOne hinsert, List.map_append]
    rfl
  have hnew : (sub.groupId, sub.libraryEntryId) ∉ pairs s := by
    intro hmem
    obtain ⟨d, hd, hpair⟩ := List.mem_map.mp hmem
    exact (Indexed.free_of_insertOne hinsert hd).2 hpair
  constructor
  · intro groupId entryId hnone
    rw [hpairs, List.mem_append, not_or] at hnone
    exact h.strangers groupId entryId hnone.1
  · intro groupId
    rw [← h.own groupId]
    refine List.filter_congr fun m hm => ?_
    have hnobody : (sub.groupId == groupId &&
        m.addedBy == some (provenance sub.libraryEntryId)) = false := by
      rw [Bool.and_eq_false_iff]
      by_cases hgroup : sub.groupId = groupId
      · refine Or.inr (beq_eq_false_iff_ne.mpr fun hadded => ?_)
        have hcopy : m ∈ copies sub.groupId sub.libraryEntryId s :=
          List.mem_filter.mpr ⟨hgroup ▸ hm, beq_iff_eq.mpr hadded⟩
        rw [h.strangers _ _ hnew] at hcopy
        exact List.not_mem_nil hcopy
      · exact Or.inl (beq_eq_false_iff_ne.mpr hgroup)
    unfold isCopy
    rw [hpairs, List.any_append]
    show (!(_ || ((sub.groupId == groupId && m.addedBy == some (provenance sub.libraryEntryId)) ||
      false))) = _
    rw [hnobody, Bool.or_false, Bool.or_false]

theorem Consistent.subscribed (h : Consistent start s) (r : SubscribeRequest) :
    Consistent start (subscribed r s) := by
  unfold Library.subscribed
  cases hentry : getEntry r.entryId s with
  | none => exact h
  | some entry =>
    cases hexisting : getSubscriptionByGroupEntry r.groupId r.entryId s with
    | some existing => exact h
    | none =>
      dsimp only
      split
      · rename_i haccepted
        unfold insertSubscription at haccepted ⊢
        cases hinsert : s.subscriptions.insertOne (newSubscription r) with
        | none =>
          rw [hinsert] at haccepted
          cases haccepted
        | some subscriptions =>
          dsimp only
          have hown : entry.id = r.entryId := (getEntry_eq_some_iff.mp hentry).2
          have htidy := (h.tidy.inserted hinsert).of_entries
            (t := incrementSubscriberCount r.entryId 1 { s with subscriptions }) rfl rfl
          have hmem : ∀ d, d ∈ subscriptions ↔ d ∈ s.subscriptions ∨ d = newSubscription r :=
            fun d => Indexed.mem_insertOne hinsert
          have hget : ∀ k e, getEntry k s = some e →
              getEntry k (incrementSubscriberCount r.entryId 1 { s with subscriptions }) =
                some (if e.id == r.entryId then e.count 1 else e) := by
            intro k e hk
            rw [getEntry_incrementSubscriberCount]
            show (getEntry k s).map _ = _
            rw [hk]
            rfl
          have hcounted : getEntry entry.id
              (incrementSubscriberCount r.entryId 1 { s with subscriptions }) =
                some (entry.count 1) := by
            rw [hget entry.id entry (hown ▸ hentry), if_pos (beq_iff_eq.mpr hown)]
          have hfree : (r.groupId, entry.id) ∉ pairs s := by
            intro hin
            obtain ⟨d, hd, hpair⟩ := List.mem_map.mp hin
            rw [hown] at hpair
            exact Indexed.getBy_eq_none_iff.mp hexisting d hd hpair
          have hstored : newSubscription r ∈ subscriptions := (hmem _).mpr (Or.inr rfl)
          have hpair : (newSubscription r).pair = (r.groupId, entry.id) := by
            rw [hown]
            rfl
          refine ⟨?_, htidy.refresh (List.mem_map.mpr ⟨_, hstored, hpair⟩)⟩
          refine tracks_refresh hstored hpair hcounted rfl rfl
            (fun _ => h.tidy.strangers _ _ hfree) fun sub hsub hid => ?_
          have hold : sub ∈ s.subscriptions := ((hmem sub).mp hsub).resolve_right fun heq =>
            hid (heq ▸ rfl)
          refine (h.tracks sub hold).of_entries rfl (hget _) fun e _ hexact => ?_
          split
          · exact hexact.of_same rfl rfl
          · exact hexact
      · exact h

def Current (s : LibraryStore) (sub : LibrarySubscription) : Prop :=
  ∀ e, getEntry sub.libraryEntryId s = some e → sub.syncedVersion = e.version

/-- The subscriptions that are left are as they were read, and the others that follow
an entry are up to date. -/
structure Syncing (start s : LibraryStore) (left : List LibrarySubscription) : Prop where
  consistent : Consistent start s
  stored : ∀ sub ∈ left, sub ∈ s.subscriptions ∧ sub.autoUpdate = true
  once : (left.map LibrarySubscription.id).Nodup
  settled : ∀ sub ∈ s.subscriptions, sub.autoUpdate = true → sub ∈ left ∨ Current s sub

variable {entryMap : List LibraryEntry} {left : List LibrarySubscription}

theorem Syncing.step (h : Syncing start s (sub :: left))
    (hmap : entryMap.find? (fun e => e.id == sub.libraryEntryId) =
      getEntry sub.libraryEntryId s) : Syncing start (syncOne entryMap s sub) left := by
  obtain ⟨hsub, hauto⟩ := h.stored sub List.mem_cons_self
  obtain ⟨e, hentry, hexact⟩ := h.consistent.tracks sub hsub
  have honce := h.once
  rw [List.map_cons, List.nodup_cons] at honce
  have hother : ∀ d ∈ left, d.id ≠ sub.id := fun d hd hid =>
    honce.1 (List.mem_map.mpr ⟨d, hd, hid⟩)
  rw [syncOne, hmap, hentry]
  dsimp only
  by_cases hversion : e.version ≤ sub.syncedVersion
  · rw [if_pos hversion]
    refine ⟨h.consistent, fun d hd => h.stored d (List.mem_cons_of_mem _ hd), honce.2, ?_⟩
    intro d hd hdauto
    rcases h.settled d hd hdauto with hmem | hcurrent
    · rcases List.mem_cons.mp hmem with rfl | hleft
      · refine Or.inr fun e' hentry' => ?_
        rw [hentry] at hentry'
        rw [← Option.some.inj hentry']
        exact Int.le_antisymm hexact.1 hversion
      · exact Or.inl hleft
    · exact Or.inr hcurrent
  · rw [if_neg hversion]
    have hown : e.id = sub.libraryEntryId := (getEntry_eq_some_iff.mp hentry).2
    have hpair : sub.pair = (sub.groupId, e.id) := by
      rw [hown]
      rfl
    have hempty : e.markers = [] → copies sub.groupId e.id s = [] := by
      intro hnone
      rw [hown, hexact.2 hauto (Or.inr hnone), hnone]
      rfl
    refine ⟨⟨?_, ?_⟩, fun d hd => ?_, honce.2, fun d hd hdauto => ?_⟩
    · exact tracks_refresh hsub hpair (hown ▸ hentry) rfl rfl hempty fun d hd _ =>
        h.consistent.tracks d hd
    · exact h.consistent.tidy.refresh (List.mem_map.mpr ⟨sub, hsub, hpair⟩)
    · obtain ⟨hdstored, hdauto⟩ := h.stored d (List.mem_cons_of_mem _ hd)
      refine ⟨mem_refresh.mpr ⟨d, hdstored, ?_⟩, hdauto⟩
      rw [if_neg fun hbeq => hother d hd (beq_iff_eq.mp hbeq)]
    · obtain ⟨old, hold, rfl⟩ := mem_refresh.mp hd
      by_cases hid : old.id = sub.id
      · obtain rfl : old = sub := Indexed.eq_of_key hold hsub hid
        rw [if_pos (beq_iff_eq.mpr rfl)]
        refine Or.inr fun e' hentry' => ?_
        rw [getEntry_refresh] at hentry'
        rw [Option.some.inj (hentry.symm.trans hentry')]
      · rw [if_neg fun hbeq => hid (beq_iff_eq.mp hbeq)] at hdauto ⊢
        rcases h.settled old hold hdauto with hmem | hcurrent
        · rcases List.mem_cons.mp hmem with rfl | hleft
          · exact absurd rfl hid
          · exact Or.inl hleft
        · refine Or.inr fun e' hentry' => ?_
          rw [getEntry_refresh] at hentry'
          exact hcurrent e' hentry'

theorem getEntry_syncOne : getEntry entryId (syncOne entryMap s sub) = getEntry entryId s := by
  unfold syncOne
  split
  · rfl
  · split
    · rfl
    · exact getEntry_refresh

theorem Syncing.run (h : Syncing start s left)
    (hmap : ∀ sub ∈ left, entryMap.find? (fun e => e.id == sub.libraryEntryId) =
      getEntry sub.libraryEntryId s) : Syncing start (left.foldl (syncOne entryMap) s) [] := by
  induction left generalizing s with
  | nil => exact h
  | cons sub left ih =>
    refine ih (h.step (hmap sub List.mem_cons_self)) fun d hd => ?_
    rw [getEntry_syncOne]
    exact hmap d (List.mem_cons_of_mem _ hd)

theorem entryMap_eq (hsub : sub ∈ listAutoUpdateSubscriptions s) :
    (getEntriesByIds
      ((listAutoUpdateSubscriptions s).map LibrarySubscription.libraryEntryId) s).find?
      (fun e => e.id == sub.libraryEntryId) = getEntry sub.libraryEntryId s :=
  find?_getEntriesByIds (List.mem_map_of_mem hsub)

/-- The loop ends with every subscription that follows an entry up to date. -/
theorem Consistent.synced (h : Consistent start s) : Syncing start (synced s) [] := by
  refine Syncing.run ⟨h, fun sub hsub => ?_, ?_, fun sub hsub hauto => ?_⟩ fun sub hsub =>
    entryMap_eq hsub
  · exact List.mem_filter.mp hsub
  · exact s.subscriptions.distinct.sublist (List.filter_sublist.map _)
  · exact Or.inl (List.mem_filter.mpr ⟨hsub, hauto⟩)

theorem filter_syncOne
    (hmap : entryMap.find? (fun e => e.id == sub.libraryEntryId) = getEntry sub.libraryEntryId s)
    (hp : sub.groupId = groupId → (getEntry sub.libraryEntryId s).isSome →
      ∀ m : FingerprintMarker, m.addedBy = some (provenance sub.libraryEntryId) → p m = false) :
    (markersOf groupId (syncOne entryMap s sub)).filter p = (markersOf groupId s).filter p := by
  rw [syncOne, hmap]
  cases hentry : getEntry sub.libraryEntryId s with
  | none => rfl
  | some e =>
    have hown : e.id = sub.libraryEntryId := (getEntry_eq_some_iff.mp hentry).2
    dsimp only
    split
    · rfl
    · refine filter_refresh fun hgroup m hm => ?_
      rw [hown] at hm
      exact hp hgroup (by rw [hentry]; rfl) m hm

theorem filter_syncEach
    (hmap : ∀ sub ∈ left, entryMap.find? (fun e => e.id == sub.libraryEntryId) =
      getEntry sub.libraryEntryId s)
    (hp : ∀ sub ∈ left, sub.groupId = groupId → (getEntry sub.libraryEntryId s).isSome →
      ∀ m : FingerprintMarker, m.addedBy = some (provenance sub.libraryEntryId) → p m = false) :
    (markersOf groupId (left.foldl (syncOne entryMap) s)).filter p =
      (markersOf groupId s).filter p := by
  induction left generalizing s with
  | nil => rfl
  | cons sub left ih =>
    rw [List.foldl_cons, ih]
    · exact filter_syncOne (hmap sub List.mem_cons_self) (hp sub List.mem_cons_self)
    · intro d hd
      rw [getEntry_syncOne]
      exact hmap d (List.mem_cons_of_mem _ hd)
    · intro d hd hgroup hsome
      rw [getEntry_syncOne] at hsome
      exact hp d (List.mem_cons_of_mem _ hd) hgroup hsome

/-- After good writes the sync leaves what is to hold. -/
theorem Consistent.mirrors (h : Consistent start s) : Mirrors start s := by
  have hsynced := h.synced
  rw [← state_syncStaleSubscriptions] at hsynced
  refine ⟨fun sub hsub hauto e hentry => ?_, fun groupId => ?_, hsynced.consistent.tidy.own⟩
  · obtain ⟨e', hentry', hexact⟩ := hsynced.consistent.tracks sub hsub
    obtain rfl : e' = e := Option.some.inj (hentry'.symm.trans hentry)
    have hcurrent := ((hsynced.settled sub hsub hauto).resolve_left List.not_mem_nil) e' hentry
    have hown : e'.id = sub.libraryEntryId := (getEntry_eq_some_iff.mp hentry).2
    rw [hown, hexact.2 hauto (Or.inl hcurrent), List.map_map]
    exact List.Perm.refl _
  · rw [state_syncStaleSubscriptions]
    refine filter_syncEach (fun sub hsub => entryMap_eq hsub) fun sub hsub hgroup hsome m hm => ?_
    have hfollowed : isFollowed s groupId m = true :=
      List.any_eq_true.mpr ⟨sub, hsub, by simp [hgroup, hsome, hm]⟩
    rw [hfollowed]
    rfl

theorem Consistent.perform (h : Consistent start s) {act : Write} (hseen : Seen text s act) :
    Consistent start (perform text s act) := by
  cases act with
  | subscribe r =>
    show Consistent start (Process.run (subscribe r).run s).1
    rw [state_subscribe]
    exact h.subscribed r
  | updateEntry entryId r =>
    show Consistent start (Process.run (Library.updateEntry entryId r).run s).1
    rw [state_updateEntry]
    exact h.edited r
  | upsert id source upstreamId data =>
    show Consistent start ((upsertEntryByUpstream id source upstreamId data).run s).1
    rw [state_upsertEntryByUpstream]
    exact h.upsertEntry hseen
  | ingest source id raw =>
    show Consistent start ((ingest text source id raw).run s).1
    rw [state_ingest]
    exact h.ingested hseen
  | sync =>
    show Consistent start (syncStaleSubscriptions.run s).1
    rw [state_syncStaleSubscriptions]
    exact h.synced.consistent

theorem copies_syncEach
    (hmap : ∀ sub ∈ left, entryMap.find? (fun e => e.id == sub.libraryEntryId) =
      getEntry sub.libraryEntryId s)
    (hleft : ∀ sub ∈ left, sub.pair = (groupId, entryId) →
      ∀ e, getEntry sub.libraryEntryId s = some e → e.version ≤ sub.syncedVersion ∨
        e.markers = []) :
    copies groupId entryId (left.foldl (syncOne entryMap) s) = copies groupId entryId s := by
  induction left generalizing s with
  | nil => rfl
  | cons sub left ih =>
    have hone : copies groupId entryId (syncOne entryMap s sub) = copies groupId entryId s := by
      rw [syncOne, hmap sub List.mem_cons_self]
      cases hentry : getEntry sub.libraryEntryId s with
      | none => rfl
      | some e =>
        have hown : e.id = sub.libraryEntryId := (getEntry_eq_some_iff.mp hentry).2
        dsimp only
        split
        · rfl
        · rename_i hstale
          by_cases hpair : sub.pair = (groupId, entryId)
          · have hempty : e.markers = [] :=
              (hleft sub List.mem_cons_self hpair e hentry).resolve_left hstale
            unfold refresh
            rw [hempty]
            rfl
          · refine copies_refresh_of_ne fun heq => hpair ?_
            rw [← heq, hown]
            rfl
    rw [List.foldl_cons, ih, hone]
    · intro d hd
      rw [getEntry_syncOne]
      exact hmap d (List.mem_cons_of_mem _ hd)
    · intro d hd hpair e hentry
      rw [getEntry_syncOne] at hentry
      exact hleft d (List.mem_cons_of_mem _ hd) hpair e hentry

theorem map_syncEach {α : Type} {f : LibrarySubscription → α}
    (hf : ∀ (sub : LibrarySubscription) (version : Int),
      f { sub with syncedVersion := version } = f sub) :
    (left.foldl (syncOne entryMap) s).subscriptions.docs.map f = s.subscriptions.docs.map f := by
  induction left generalizing s with
  | nil => rfl
  | cons sub left ih =>
    rw [List.foldl_cons, ih]
    unfold syncOne
    split
    · rfl
    · split
      · rfl
      · unfold refresh
        rw [map_updateSubscription _ fun d => hf d _]
        split
        · rfl
        · rfl

theorem getEntry_syncEach :
    getEntry entryId (left.foldl (syncOne entryMap) s) = getEntry entryId s := by
  induction left generalizing s with
  | nil => rfl
  | cons sub left ih => rw [List.foldl_cons, ih, getEntry_syncOne]

theorem not_mirrors (hsub : sub ∈ s.subscriptions) (hauto : sub.autoUpdate = true)
    (hentry : getEntry sub.libraryEntryId s = some e)
    (hleft : e.version ≤ sub.syncedVersion ∨ e.markers = [])
    (hlength : (copies sub.groupId sub.libraryEntryId s).length ≠ e.markers.length) :
    ¬Mirrors start s := by
  intro h
  have hcopied := h.copied
  rw [state_syncStaleSubscriptions] at hcopied
  have hkinds : (synced s).subscriptions.docs.map (fun d => (d.pair, d.autoUpdate)) =
      s.subscriptions.docs.map fun d => (d.pair, d.autoUpdate) :=
    map_syncEach fun _ _ => rfl
  have hmem : (sub.pair, sub.autoUpdate) ∈
      (synced s).subscriptions.docs.map fun d => (d.pair, d.autoUpdate) := by
    rw [hkinds]
    exact List.mem_map.mpr ⟨sub, hsub, rfl⟩
  obtain ⟨d, hd, hkind⟩ := List.mem_map.mp hmem
  obtain ⟨hpair, hdauto⟩ := Prod.mk.inj hkind
  obtain ⟨hgroup, hid⟩ := Prod.mk.inj hpair
  have hget : getEntry d.libraryEntryId (synced s) = some e := by
    rw [hid]
    exact getEntry_syncEach.trans hentry
  have hperm := hcopied d hd (hdauto.trans hauto) e hget
  have hsame : copies sub.groupId sub.libraryEntryId (synced s) =
      copies sub.groupId sub.libraryEntryId s := by
    refine copies_syncEach (fun d hd => entryMap_eq hd) fun f hf hpair' e' hentry' => ?_
    obtain rfl : f = sub := Indexed.eq_of_index (List.mem_filter.mp hf).1 hsub hpair'
    rw [← Option.some.inj (hentry.symm.trans hentry')]
    exact hleft
  have hown : e.id = sub.libraryEntryId := (getEntry_eq_some_iff.mp hentry).2
  rw [hgroup, hown, hsame] at hperm
  have hcount := hperm.length_eq
  rw [List.length_map, List.length_map] at hcount
  exact hlength hcount

theorem mergeSeen_of_mirrors {existing : LibraryEntry} {added : List LibraryMarker}
    {tags : List String} (h : Consistent start s) (hentry : getEntry existing.id s = some existing)
    (hmirrors : Mirrors start (mergeMarkers existing.id added tags s)) :
    MergeSeen s existing added := by
  intro hadded sub hsub hauto hid
  by_contra hstale
  obtain ⟨e, hown, hexact⟩ := h.tracks sub hsub
  rw [hid, hentry] at hown
  obtain rfl : existing = e := Option.some.inj hown
  have hcurrent : sub.syncedVersion = existing.version := by
    have hle := hexact.1
    omega
  have hmerged : getEntry sub.libraryEntryId (mergeMarkers existing.id added tags s) =
      some (existing.merge added tags) := by
    refine getEntry_modifyEntry.trans ?_
    rw [hid, hentry, Option.map_some, if_pos (beq_iff_eq.mpr rfl)]
  have hcopies : copies sub.groupId sub.libraryEntryId (mergeMarkers existing.id added tags s) =
      existing.markers.map (copyMarker sub.libraryEntryId) :=
    hexact.2 hauto (Or.inl hcurrent)
  refine not_mirrors (s := mergeMarkers existing.id added tags s) hsub hauto hmerged
    (Or.inl (Int.le_of_eq hcurrent.symm)) ?_ hmirrors
  rw [hcopies, List.length_map]
  show existing.markers.length ≠ (existing.markers ++ added).length
  rw [List.length_append]
  have hsome : added.length ≠ 0 := fun hzero => hadded (List.length_eq_zero_iff.mp hzero)
  omega

theorem upsertSeen_of_mirrors {id upstreamId : String} {data : EntryData}
    (hmirrors : Mirrors start (upsertEntry id source upstreamId data s).1) :
    UpsertSeen s source upstreamId data.markers := by
  intro hempty e he sub hsub hauto hid
  by_contra hcopies
  obtain ⟨hsubscriptions, hfingerprints⟩ := upsertEntry_keeps id source upstreamId data s
  obtain ⟨hmem, hupstream⟩ := Indexed.getBy_eq_some_iff.mp he
  have hentry : getEntry sub.libraryEntryId (upsertEntry id source upstreamId data s).1 =
      some (data.apply source upstreamId e) := by
    rw [upsertEntry_of_found he, getEntry_eq_some_iff.mpr ⟨hmem, hid.symm⟩, Option.map_some,
      if_pos (beq_iff_eq.mpr hupstream)]
  have hsame : copies sub.groupId sub.libraryEntryId (upsertEntry id source upstreamId data s).1 =
      copies sub.groupId e.id s := by
    unfold copies markersOf
    rw [hfingerprints, hid]
  have hstored : sub ∈ (upsertEntry id source upstreamId data s).1.subscriptions := by
    rw [hsubscriptions]
    exact hsub
  refine not_mirrors hstored hauto hentry (Or.inr hempty) ?_ hmirrors
  rw [hsame]
  show _ ≠ data.markers.length
  rw [hempty]
  exact fun hzero => hcopies (List.length_eq_zero_iff.mp hzero)

theorem Consistent.seen (h : Consistent start s) {act : Write}
    (hmirrors : Mirrors start (Mirror.perform text s act)) : Seen text s act := by
  cases act with
  | upsert id source upstreamId data =>
    have hafter : Mirror.perform text s (.upsert id source upstreamId data) =
        (Library.upsertEntry id source upstreamId data s).1 :=
      state_upsertEntryByUpstream id source upstreamId data s
    rw [hafter] at hmirrors
    exact upsertSeen_of_mirrors hmirrors
  | ingest source id raw =>
    have hafter : Mirror.perform text s (.ingest source id raw) =
        Library.ingested text source id raw s :=
      state_ingest text source id raw s
    rw [hafter] at hmirrors
    unfold Library.ingested at hmirrors
    cases hfound : findSameName text source raw.name s with
    | some existing =>
      rw [hfound] at hmirrors
      dsimp only at hmirrors
      simp only [Seen, hfound]
      have hentry : getEntry existing.id s = some existing :=
        getEntry_eq_some_iff.mpr ⟨List.mem_of_find?_eq_some hfound, rfl⟩
      split at hmirrors
      · rename_i hnone
        exact fun hadded => absurd (List.isEmpty_iff.mp hnone) hadded
      · exact mergeSeen_of_mirrors h hentry hmirrors
    | none =>
      rw [hfound] at hmirrors
      simp only [Seen, hfound]
      exact upsertSeen_of_mirrors hmirrors
  | subscribe r => trivial
  | updateEntry entryId r => trivial
  | sync => trivial

theorem runs_of_mirrors (h : Consistent start s) {acts : List Write}
    (hmirrors : ∀ before, before <+: acts → Mirrors start ((machine text).after s before)) :
    (machine text).Runs (Seen text) s acts := by
  induction acts generalizing s with
  | nil => trivial
  | cons act acts ih =>
    have hfirst : Mirrors start (Mirror.perform text s act) := hmirrors [act] ⟨acts, rfl⟩
    have hseen := h.seen hfirst
    refine ⟨⟨trivial, hseen⟩, ih (h.perform hseen) fun before hbefore => ?_⟩
    exact hmirrors (act :: before) (List.cons_prefix_cons.mpr ⟨rfl, hbefore⟩)

theorem consistent_after (h : Consistent start s) {acts : List Write}
    (hruns : (machine text).Runs (Seen text) s acts) :
    Consistent start ((machine text).after s acts) :=
  Machine.Keeps.after (I := Consistent start) (fun _ _ _ hseen hs => hs.perform hseen) hruns h

theorem consistent_start (hsubscriptions : start.subscriptions.docs = [])
    (hcopies : ∀ groupId entryId, copies groupId entryId start = []) : Consistent start start := by
  refine ⟨fun sub hsub => ?_, ⟨fun groupId entryId _ => hcopies groupId entryId, fun groupId => ?_⟩⟩
  · have hmem : sub ∈ start.subscriptions.docs := hsub
    rw [hsubscriptions] at hmem
    exact absurd hmem List.not_mem_nil
  · refine List.filter_eq_self.mpr fun m _ => ?_
    unfold isCopy pairs
    rw [hsubscriptions]
    rfl

/-- From a store without subscriptions and copies, a sync after any part of a run
leaves exact copies if and only if every write of the run is seen. -/
theorem mirrors_iff (text : Text) (start : LibraryStore)
    (hsubscriptions : start.subscriptions.docs = [])
    (hcopies : ∀ groupId entryId, copies groupId entryId start = []) (acts : List Write) :
    (∀ before, before <+: acts → Mirrors start ((machine text).after start before)) ↔
      (machine text).Runs (Seen text) start acts := by
  have hstart := consistent_start hsubscriptions hcopies
  constructor
  · exact runs_of_mirrors hstart
  · intro hruns before hbefore
    exact (consistent_after hstart (hruns.initial hbefore)).mirrors

end Invariant

def sampleText : Text where
  lower pattern := pattern
  matchesName name stored := decide (name = stored)

def sampleEntry : LibraryEntry where
  id := "e1"
  name := "firefox"
  markers := [{ pattern := "firefox*", displayName := "firefox" }]
  source := .chocolatey
  upstreamId := some "firefox"

def sampleStore : LibraryStore where
  entries := ⟨⟨[sampleEntry], by decide⟩, by decide⟩
  subscriptions := .empty
  fingerprints := .empty

def sampleSubscribe : SubscribeRequest := { id := "s1", entryId := "e1", groupId := "g1" }

def sampleRaw (pattern : String) : RawEntry where
  upstreamId := "firefox"
  name := "firefox"
  patterns := [pattern]

/-- The source has a new pattern, which the sync copies, and then another source has
the same one. -/
theorem mirrors_sample :
    Mirrors sampleStore ((machine sampleText).after sampleStore
      [.subscribe sampleSubscribe, .ingest .chocolatey "e2" (sampleRaw "mozilla*"), .sync,
        .ingest .homebrew "e3" (sampleRaw "mozilla*")]) :=
  (mirrors_iff sampleText sampleStore rfl (fun _ _ => rfl) _).mpr
    (by decide) _ (List.prefix_refl _)

/-- A group subscribes, and another source adds a pattern to the entry. -/
theorem merge_not_copied :
    ¬∀ (text : Text) (start : LibraryStore), start.subscriptions.docs = [] →
      (∀ groupId entryId, copies groupId entryId start = []) → ∀ acts : List Write,
        Mirrors start ((machine text).after start acts) := by
  intro hclaim
  have hmirrors := hclaim sampleText sampleStore rfl (fun _ _ => rfl)
    [.subscribe sampleSubscribe, .ingest .homebrew "e2" (sampleRaw "mozilla*")]
  have hperm := hmirrors.copied ⟨"s1", "g1", "e1", 1, true, "system"⟩
    (List.mem_singleton_self _) rfl _ rfl
  exact absurd hperm.length_eq (by decide)

end Sentora.Library.Mirror
