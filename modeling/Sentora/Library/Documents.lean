import Mathlib.Data.Rat.Defs
import Sentora.Lib.Indexed

/-!
# Documents of the library

Entries, subscriptions and fingerprints (`domains/library/entities.py`), and what
`domains/library/repository.py` does with the collections.  Times and the random
ids of markers are left out; the ids of entries and subscriptions are given.
-/

namespace Sentora.Library

open Lib

inductive SourceType where
  | manual | nistCpe | mitre | chocolatey | winget | homebrew | homebrewCask | community
deriving DecidableEq

def SourceType.value : SourceType → String
  | .manual => "manual"
  | .nistCpe => "nist_cpe"
  | .mitre => "mitre"
  | .chocolatey => "chocolatey"
  | .winget => "winget"
  | .homebrew => "homebrew"
  | .homebrewCask => "homebrew_cask"
  | .community => "community"

inductive EntryStatus where
  | draft | pendingReview | published | deprecated
deriving DecidableEq

structure LibraryMarker where
  pattern : String
  displayName : String
  category : String := "name_pattern"
  weight : ℚ := 1
  sourceDetail : String := ""
  addedBy : String := "system"
deriving DecidableEq

structure LibraryEntry where
  id : String
  name : String
  vendor : String := ""
  category : String := ""
  description : String := ""
  tags : List String := []
  markers : List LibraryMarker := []
  source : SourceType := .manual
  upstreamId : Option String := none
  upstreamVersion : Option String := none
  version : Int := 1
  status : EntryStatus := .published
  subscriberCount : Int := 0
  submittedBy : String := "system"
  reviewedBy : Option String := none
deriving DecidableEq

/-- The unique index of `library_entries`. -/
def LibraryEntry.upstream (e : LibraryEntry) : SourceType × Option String :=
  (e.source, e.upstreamId)

structure LibrarySubscription where
  id : String
  groupId : String
  libraryEntryId : String
  syncedVersion : Int := 0
  autoUpdate : Bool := true
  subscribedBy : String := "system"
deriving DecidableEq

/-- The unique index of `library_subscriptions`. -/
def LibrarySubscription.pair (sub : LibrarySubscription) : String × String :=
  (sub.groupId, sub.libraryEntryId)

inductive MarkerSource where
  | manual | statistical | seed | library
deriving DecidableEq

structure FingerprintMarker where
  pattern : String
  displayName : String
  category : String := "name_pattern"
  weight : ℚ := 1
  source : MarkerSource := .manual
  confidence : ℚ := 1
  addedBy : Option String := some "system"
deriving DecidableEq

def LibraryMarker.content (m : LibraryMarker) : String × ℚ × String :=
  (m.pattern, m.weight, m.displayName)

def FingerprintMarker.content (m : FingerprintMarker) : String × ℚ × String :=
  (m.pattern, m.weight, m.displayName)

/-- A document of the collection `fingerprints`, whose other fields may be missing. -/
structure Fingerprint where
  groupId : String
  groupName : Option String := none
  siteName : Option String := none
  accountName : Option String := none
  markers : Option (List FingerprintMarker) := none
  createdBy : Option String := none
deriving DecidableEq

/-- The shared library database, and the subscriptions and fingerprints of a tenant. -/
structure LibraryStore where
  entries : Indexed LibraryEntry.id LibraryEntry.upstream
  subscriptions : Indexed LibrarySubscription.id LibrarySubscription.pair
  fingerprints : Collection Fingerprint.groupId

def getEntry (entryId : String) (s : LibraryStore) : Option LibraryEntry :=
  s.entries.toCollection.get entryId

def getEntriesByIds (entryIds : List String) (s : LibraryStore) : List LibraryEntry :=
  s.entries.docs.filter fun e => entryIds.contains e.id

/-- `update_one({"_id": …})` with an update that leaves the id and the upstream. -/
def LibraryStore.modifyEntry (s : LibraryStore) (entryId : String) (f : LibraryEntry → LibraryEntry)
    (hid : ∀ e, (f e).id = e.id) (hupstream : ∀ e, (f e).upstream = e.upstream) : LibraryStore :=
  { s with entries := s.entries.updateOne (fun e => e.id == entryId) f hid fun e _ => hupstream e }

structure LibraryEntryUpdateRequest where
  name : Option String := none
  vendor : Option String := none
  category : Option String := none
  description : Option String := none
  tags : Option (List String) := none
  status : Option EntryStatus := none
deriving DecidableEq

/-- The `$set` of the fields that are given. -/
def LibraryEntryUpdateRequest.apply (r : LibraryEntryUpdateRequest) (e : LibraryEntry) :
    LibraryEntry :=
  { e with
    name := r.name.getD e.name
    vendor := r.vendor.getD e.vendor
    category := r.category.getD e.category
    description := r.description.getD e.description
    tags := r.tags.getD e.tags
    status := r.status.getD e.status }

/-- `update_entry`, and whether a document matched: `updated_at` is new, so that it
is modified. -/
def updateEntryDoc (entryId : String) (r : LibraryEntryUpdateRequest) (s : LibraryStore) :
    LibraryStore × Bool :=
  (s.modifyEntry entryId r.apply (fun _ => rfl) fun _ => rfl, (getEntry entryId s).isSome)

def LibraryEntry.count (delta : Int) (e : LibraryEntry) : LibraryEntry :=
  { e with subscriberCount := e.subscriberCount + delta }

def incrementSubscriberCount (entryId : String) (delta : Int) (s : LibraryStore) : LibraryStore :=
  s.modifyEntry entryId (LibraryEntry.count delta) (fun _ => rfl) fun _ => rfl

def deleteEntryDoc (entryId : String) (s : LibraryStore) : LibraryStore × Bool :=
  ({ s with entries := s.entries.deleteMany fun e => e.id == entryId }, (getEntry entryId s).isSome)

/-- What an ingestion sets in an entry, but for its source and upstream id. -/
structure EntryData where
  name : String
  vendor : String := ""
  category : String := ""
  description : String := ""
  tags : List String := []
  markers : List LibraryMarker
  upstreamVersion : Option String := none
  status : EntryStatus := .published
  submittedBy : String := "system"
deriving DecidableEq

def EntryData.apply (data : EntryData) (source : SourceType) (upstreamId : String)
    (e : LibraryEntry) : LibraryEntry :=
  { e with
    name := data.name
    vendor := data.vendor
    category := data.category
    description := data.description
    tags := data.tags
    markers := data.markers
    source := source
    upstreamId := some upstreamId
    upstreamVersion := data.upstreamVersion
    status := data.status
    submittedBy := data.submittedBy
    version := e.version + 1 }

def EntryData.create (data : EntryData) (id : String) (source : SourceType) (upstreamId : String) :
    LibraryEntry where
  id := id
  name := data.name
  vendor := data.vendor
  category := data.category
  description := data.description
  tags := data.tags
  markers := data.markers
  source := source
  upstreamId := some upstreamId
  upstreamVersion := data.upstreamVersion
  version := 1
  status := data.status
  subscriberCount := 0
  submittedBy := data.submittedBy

/-- The update of `upsert_entry_by_upstream`: whether it inserted a document, or
nothing where the new id is in use. -/
def upsertEntry (id : String) (source : SourceType) (upstreamId : String) (data : EntryData)
    (s : LibraryStore) : LibraryStore × Option Bool :=
  match s.entries.getBy (source, some upstreamId) with
  | some _ =>
    ({ s with
        entries := s.entries.updateOne (fun e => e.upstream == (source, some upstreamId))
          (data.apply source upstreamId) (fun _ => rfl) fun _ h => (beq_iff_eq.mp h).symm },
      some false)
  | none =>
    match s.entries.insertOne (data.create id source upstreamId) with
    | some entries => ({ s with entries }, some true)
    | none => (s, none)

def getSubscriptionByGroupEntry (groupId entryId : String) (s : LibraryStore) :
    Option LibrarySubscription :=
  s.subscriptions.getBy (groupId, entryId)

def listAutoUpdateSubscriptions (s : LibraryStore) : List LibrarySubscription :=
  s.subscriptions.docs.filter fun sub => sub.autoUpdate

/-- `insert_subscription`, and whether it was accepted. -/
def insertSubscription (sub : LibrarySubscription) (s : LibraryStore) : LibraryStore × Bool :=
  match s.subscriptions.insertOne sub with
  | some subscriptions => ({ s with subscriptions }, true)
  | none => (s, false)

/-- `update_subscription` with the version that was copied. -/
def updateSubscription (subId : String) (syncedVersion : Int) (s : LibraryStore) : LibraryStore :=
  { s with
    subscriptions := s.subscriptions.updateOne (fun sub => sub.id == subId)
      (fun sub => { sub with syncedVersion }) (fun _ => rfl) fun _ _ => rfl }

def deleteSubscription (subId : String) (s : LibraryStore) : LibraryStore :=
  { s with subscriptions := s.subscriptions.deleteMany fun sub => sub.id == subId }

def deleteSubscriptionsByEntry (entryId : String) (s : LibraryStore) : LibraryStore :=
  { s with subscriptions := s.subscriptions.deleteMany fun sub => sub.libraryEntryId == entryId }

def provenance (entryId : String) : String := "library:" ++ entryId

def copyMarker (entryId : String) (m : LibraryMarker) : FingerprintMarker where
  pattern := m.pattern
  displayName := m.displayName
  category := m.category
  weight := m.weight
  source := .library
  confidence := 1
  addedBy := some (provenance entryId)

def withoutCopies (entryId : String) (markers : List FingerprintMarker) : List FingerprintMarker :=
  markers.filter fun m => m.addedBy != some (provenance entryId)

def copyMarkers (entry : LibraryEntry) (groupId : String) (s : LibraryStore) : LibraryStore :=
  let old := s.fingerprints.get groupId
  { s with
    fingerprints := s.fingerprints.replaceOne {
      groupId
      groupName := some ((old.bind Fingerprint.groupName).getD "")
      siteName := some ((old.bind Fingerprint.siteName).getD "")
      accountName := some ((old.bind Fingerprint.accountName).getD "")
      markers := some (withoutCopies entry.id ((old.bind Fingerprint.markers).getD []) ++
        entry.markers.map (copyMarker entry.id))
      createdBy := some ((old.bind Fingerprint.createdBy).getD "library") } }

def Fingerprint.pull (entryId : String) (fp : Fingerprint) : Fingerprint :=
  { fp with markers := fp.markers.map (withoutCopies entryId) }

/-- The update of `_remove_library_markers`. -/
def pullMarkers (entryId groupId : String) (s : LibraryStore) : LibraryStore :=
  { s with
    fingerprints := s.fingerprints.updateOne (fun fp => fp.groupId == groupId)
      (Fingerprint.pull entryId) fun _ => rfl }

def markersOf (groupId : String) (s : LibraryStore) : List FingerprintMarker :=
  ((s.fingerprints.get groupId).bind Fingerprint.markers).getD []

def copies (groupId entryId : String) (s : LibraryStore) : List FingerprintMarker :=
  (markersOf groupId s).filter fun m => m.addedBy == some (provenance entryId)

/-- The groups and entries of the subscriptions. -/
def pairs (s : LibraryStore) : List (String × String) :=
  s.subscriptions.docs.map LibrarySubscription.pair

section Operations

variable {s : LibraryStore} {entry : LibraryEntry} {entryId entryId' groupId groupId' : String}

theorem provenance_injective : Function.Injective provenance := by
  intro a b h
  exact (String.append_right_inj "library:").mp h

theorem getEntry_eq_some_iff {e : LibraryEntry} :
    getEntry entryId s = some e ↔ e ∈ s.entries ∧ e.id = entryId :=
  Collection.get_eq_some_iff

theorem getEntry_modifyEntry {f : LibraryEntry → LibraryEntry} {hid : ∀ e, (f e).id = e.id}
    {hupstream : ∀ e, (f e).upstream = e.upstream} :
    getEntry entryId (s.modifyEntry entryId' f hid hupstream) =
      (getEntry entryId s).map fun e => if e.id == entryId' then f e else e := by
  have hone : ∀ d ∈ s.entries.toCollection, ∀ e ∈ s.entries.toCollection,
      (d.id == entryId') = true → (e.id == entryId') = true → d = e := by
    intro d hd e he hdid heid
    exact Collection.eq_of_key hd he ((beq_iff_eq.mp hdid).trans (beq_iff_eq.mp heid).symm)
  exact Collection.get_updateOne hid hone

theorem getEntry_incrementSubscriberCount (delta : Int) :
    getEntry entryId (incrementSubscriberCount entryId' delta s) =
      (getEntry entryId s).map fun e => if e.id == entryId' then e.count delta else e :=
  getEntry_modifyEntry

theorem upsertEntry_of_found {id upstreamId : String} {source : SourceType} {data : EntryData}
    {existing : LibraryEntry} (hfound : s.entries.getBy (source, some upstreamId) = some existing) :
    getEntry entryId (upsertEntry id source upstreamId data s).1 = (getEntry entryId s).map fun e =>
      if e.upstream == (source, some upstreamId) then data.apply source upstreamId e else e := by
  have hone : ∀ d ∈ s.entries.toCollection, ∀ e ∈ s.entries.toCollection,
      (d.upstream == (source, some upstreamId)) = true →
        (e.upstream == (source, some upstreamId)) = true → d = e := by
    intro d hd e he hdup heup
    exact Indexed.eq_of_index hd he ((beq_iff_eq.mp hdup).trans (beq_iff_eq.mp heup).symm)
  unfold upsertEntry
  rw [hfound]
  exact Collection.get_updateOne (f := data.apply source upstreamId) (fun _ => rfl) hone

theorem upsertEntry_keeps (id : String) (source : SourceType) (upstreamId : String)
    (data : EntryData) (s : LibraryStore) :
    (upsertEntry id source upstreamId data s).1.subscriptions = s.subscriptions ∧
      (upsertEntry id source upstreamId data s).1.fingerprints = s.fingerprints := by
  unfold upsertEntry
  split
  · exact ⟨rfl, rfl⟩
  · split
    · exact ⟨rfl, rfl⟩
    · exact ⟨rfl, rfl⟩

theorem mem_upsertEntry {id upstreamId : String} {source : SourceType} {data : EntryData}
    (hid : ∀ e ∈ s.entries, e.id ≠ id) :
    (upsertEntry id source upstreamId data s).2.isSome ∧
      ∃ d : LibraryEntry, d.upstream = (source, some upstreamId) ∧ d.name = data.name ∧
        d.markers = data.markers ∧ d.tags = data.tags ∧
        ∀ e, e ∈ (upsertEntry id source upstreamId data s).1.entries ↔
          e = d ∨ (e ∈ s.entries ∧ e.upstream ≠ (source, some upstreamId)) := by
  unfold upsertEntry
  cases hfound : s.entries.getBy (source, some upstreamId) with
  | some existing =>
    obtain ⟨hmem, hup⟩ := Indexed.getBy_eq_some_iff.mp hfound
    refine ⟨rfl, data.apply source upstreamId existing, rfl, rfl, rfl, rfl, fun e => ?_⟩
    have hone : ∀ e ∈ s.entries, (e.upstream == (source, some upstreamId)) = true → e = existing :=
      fun e he h => Indexed.eq_of_index he hmem ((beq_iff_eq.mp h).trans hup.symm)
    rw [← beq_eq_false_iff_ne]
    exact Indexed.mem_updateOne (f := data.apply source upstreamId) (fun _ => rfl)
      (fun _ h => (beq_iff_eq.mp h).symm) hmem (beq_iff_eq.mpr hup) hone
  | none =>
    have hup := Indexed.getBy_eq_none_iff.mp hfound
    obtain ⟨entries, hinsert⟩ :=
      Indexed.insertOne_of_free (d := data.create id source upstreamId) hid hup
    rw [hinsert]
    refine ⟨rfl, data.create id source upstreamId, rfl, rfl, rfl, rfl, fun e => ?_⟩
    rw [Indexed.mem_insertOne hinsert, or_comm]
    exact or_congr_right ⟨fun he => ⟨he, hup e he⟩, And.left⟩

theorem mem_modifyEntry {f : LibraryEntry → LibraryEntry} {hid : ∀ e, (f e).id = e.id}
    {hupstream : ∀ e, (f e).upstream = e.upstream} {d e : LibraryEntry} (hd : d ∈ s.entries) :
    e ∈ (s.modifyEntry d.id f hid hupstream).entries ↔ e = f d ∨ (e ∈ s.entries ∧ e.id ≠ d.id) := by
  rw [← beq_eq_false_iff_ne]
  exact Indexed.mem_updateOne hid (fun e _ => hupstream e) hd (beq_iff_eq.mpr rfl) fun e he h =>
    Indexed.eq_of_key he hd (beq_iff_eq.mp h)

theorem map_updateSubscription {α : Type} {subId : String} {f : LibrarySubscription → α}
    (version : Int)
    (hf : ∀ sub : LibrarySubscription, f { sub with syncedVersion := version } = f sub) :
    (updateSubscription subId version s).subscriptions.docs.map f = s.subscriptions.docs.map f :=
  Collection.keys_updateFirst (fun d _ => hf d) s.subscriptions.docs

theorem markersOf_copyMarkers :
    markersOf groupId (copyMarkers entry groupId' s) =
      if groupId' = groupId then
        withoutCopies entry.id (markersOf groupId s) ++ entry.markers.map (copyMarker entry.id)
      else markersOf groupId s := by
  show ((Collection.get (Collection.replaceOne _ _) groupId).bind _).getD [] = _
  rw [Collection.get_replaceOne]
  by_cases hgroup : groupId' = groupId
  · subst hgroup
    rw [if_pos rfl, if_pos rfl]
    rfl
  · rw [if_neg hgroup, if_neg hgroup]
    rfl

theorem markersOf_pullMarkers :
    markersOf groupId (pullMarkers entryId groupId' s) =
      if groupId' = groupId then withoutCopies entryId (markersOf groupId s)
      else markersOf groupId s := by
  have hone : ∀ d ∈ s.fingerprints, ∀ e ∈ s.fingerprints, (d.groupId == groupId') = true →
      (e.groupId == groupId') = true → d = e := by
    intro d hd e he hdid heid
    exact Collection.eq_of_key hd he ((beq_iff_eq.mp hdid).trans (beq_iff_eq.mp heid).symm)
  have hget : (pullMarkers entryId groupId' s).fingerprints.get groupId =
      (s.fingerprints.get groupId).map fun fp =>
        if fp.groupId == groupId' then fp.pull entryId else fp :=
    Collection.get_updateOne (f := Fingerprint.pull entryId) (fun _ => rfl) hone
  unfold markersOf
  rw [hget]
  cases hfp : s.fingerprints.get groupId with
  | none =>
    split
    · rfl
    · rfl
  | some fp =>
    have hid : fp.groupId = groupId := (Collection.get_eq_some_iff.mp hfp).2
    by_cases hgroup : groupId' = groupId
    · subst hgroup
      rw [if_pos rfl, Option.map_some, if_pos (beq_iff_eq.mpr hid)]
      cases hmarkers : fp.markers with
      | none => simp [Fingerprint.pull, hmarkers, withoutCopies]
      | some markers => simp [Fingerprint.pull, hmarkers]
    · rw [if_neg hgroup, Option.map_some, if_neg fun h => hgroup ((beq_iff_eq.mp h).symm.trans hid)]

theorem filter_copyMarkers {p : FingerprintMarker → Bool} (hp : groupId' = groupId →
    ∀ m : FingerprintMarker, m.addedBy = some (provenance entry.id) → p m = false) :
    (markersOf groupId (copyMarkers entry groupId' s)).filter p =
      (markersOf groupId s).filter p := by
  rw [markersOf_copyMarkers]
  by_cases hgroup : groupId' = groupId
  · have hnew : (entry.markers.map (copyMarker entry.id)).filter p = [] := by
      rw [List.filter_eq_nil_iff]
      intro m hm
      obtain ⟨n, -, rfl⟩ := List.mem_map.mp hm
      rw [hp hgroup (copyMarker entry.id n) rfl]
      exact Bool.false_ne_true
    have hold : (withoutCopies entry.id (markersOf groupId s)).filter p =
        (markersOf groupId s).filter p := by
      unfold withoutCopies
      rw [List.filter_filter]
      refine List.filter_congr fun m _ => ?_
      by_cases hm : m.addedBy = some (provenance entry.id)
      · rw [hp hgroup m hm, Bool.false_and]
      · simp [hm]
    rw [if_pos hgroup, List.filter_append, hnew, hold, List.append_nil]
  · rw [if_neg hgroup]

theorem copies_copyMarkers_self :
    copies groupId entry.id (copyMarkers entry groupId s) =
      entry.markers.map (copyMarker entry.id) := by
  have hold : (withoutCopies entry.id (markersOf groupId s)).filter
      (fun m => m.addedBy == some (provenance entry.id)) = [] := by
    rw [List.filter_eq_nil_iff]
    intro m hm
    have hne := (List.mem_filter.mp hm).2
    simpa using hne
  have hnew : (entry.markers.map (copyMarker entry.id)).filter
      (fun m => m.addedBy == some (provenance entry.id)) =
        entry.markers.map (copyMarker entry.id) := by
    rw [List.filter_eq_self]
    intro m hm
    obtain ⟨n, -, rfl⟩ := List.mem_map.mp hm
    exact beq_iff_eq.mpr rfl
  unfold copies
  rw [markersOf_copyMarkers, if_pos rfl, List.filter_append, hold, hnew, List.nil_append]

theorem copies_copyMarkers_of_ne (h : (groupId', entry.id) ≠ (groupId, entryId)) :
    copies groupId entryId (copyMarkers entry groupId' s) = copies groupId entryId s := by
  refine filter_copyMarkers fun hgroup m hm => ?_
  rw [hm]
  have hid : entry.id ≠ entryId := fun hid => h (by rw [hgroup, hid])
  simpa using fun heq => hid (provenance_injective heq)

theorem copies_pullMarkers_self : copies groupId entryId (pullMarkers entryId groupId s) = [] := by
  unfold copies
  rw [markersOf_pullMarkers, if_pos rfl, List.filter_eq_nil_iff]
  intro m hm
  have hne := (List.mem_filter.mp hm).2
  simpa using hne

theorem copies_pullMarkers_of_ne (h : (groupId', entryId') ≠ (groupId, entryId)) :
    copies groupId entryId (pullMarkers entryId' groupId' s) = copies groupId entryId s := by
  unfold copies
  rw [markersOf_pullMarkers]
  by_cases hgroup : groupId' = groupId
  · have hid : entryId' ≠ entryId := fun hid => h (by rw [hgroup, hid])
    rw [if_pos hgroup]
    unfold withoutCopies
    rw [List.filter_filter]
    refine List.filter_congr fun m _ => ?_
    by_cases hm : m.addedBy = some (provenance entryId)
    · have hother : provenance entryId ≠ provenance entryId' := fun heq =>
        hid (provenance_injective heq).symm
      simp [hm, hother]
    · simp [hm]
  · rw [if_neg hgroup]

end Operations

end Sentora.Library
